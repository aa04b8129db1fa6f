import NpuMatmul.Dispatch.ShapeErrors

set_option autoImplicit false

namespace NpuMatmul

open NdArray RowMajor

variable {R : Type}

section Property

def ComputesMatrices (backends : Backends R) : Prop :=
  ∀ (call : ExtensionCall R) (m k n : Nat), call.a.shape = [m, k] → call.b.shape = [k, n] →
    ∃ c, backends.kernel call = some c ∧ c.shape = [m, n]

def OverwritesOut (backends : Backends R) : Prop :=
  ∀ (a b : TorchTensor R) (out other : NdArray R), out.shape = other.shape →
    backends.matmulOriginal a b (some out) = backends.matmulOriginal a b (some other)

inductive VectorOperands : List Nat → List Nat → List Nat → Prop where
  | row (k n : Nat) (inner : 0 < k) (columns : 0 < n) : VectorOperands [k] [k, n] [n]
  | column (m k : Nat) (rows : 0 < m) (inner : 0 < k) : VectorOperands [m, k] [k] [m]

variable (a b : TorchTensor R)

def asMatrices : TorchTensor R × TorchTensor R :=
  if a.shape.length = 1 then (a.holding (a.unsqueeze 0), b) else (a, b.holding (b.unsqueeze 1))

def vectorAxis : Nat := if a.shape.length = 1 then 0 else 1

structure SameValues (c d : NdArray R) : Prop where
  shape : c.shape = d.shape
  entry : ∀ index, Inside c.shape index → c.entry index = d.entry index

variable [Zero R] (settings : Settings) (backends : Backends R) (frames : Nat)
  (out : Option (NdArray R)) (backendChoice : Option Int)

-- Any other kernel would have done: nothing that the kernel computed is in the result.
def Discarded : Prop :=
  ∀ other : Backends R, ComputesMatrices other → other.matmulOriginal = backends.matmulOriginal →
    (matmulPatch settings other frames a b out backendChoice).result =
      (matmulPatch settings backends frames a b out backendChoice).result

-- matmul_patch on a vector, against matmul_patch on the matrix with one row or column in its place.
structure ComputedAsMatrix : Prop where
  value : ∃ c d, (matmulPatch settings backends frames a b out backendChoice).result = some c ∧
    (matmulPatch settings backends frames (asMatrices a b).1 (asMatrices a b).2 none
      backendChoice).result = some d ∧ SameValues c (d.squeeze (vectorAxis a))
  once : ∃ call, (matmulPatch settings backends frames a b out backendChoice).calls = [call]
  used : ¬ Discarded a b settings backends frames out backendChoice

end Property

section Matrices

variable [Zero R] {a b : TorchTensor R} {m k n : Nat}

theorem matrices_viewed (settings : Settings) (cpuA : a.CpuFloat32) (cpuB : b.CpuFloat32)
    (left : a.shape = [m, k]) (right : b.shape = [k, n]) :
    ∃ (p q : NdArray R) (view : NdArray R → NdArray R), p.shape = [padded m, padded k] ∧
      q.shape = [padded k, padded n] ∧
      (∀ res : NdArray R, res.shape = [padded m, padded n] →
        (view res).shape = [m, n] ∧ (view res).entry = res.entry) ∧
      ∀ (backends : Backends R) (frames : Nat) (backendChoice : Option Int),
        matmulPatch settings backends (frames + 2) a b none backendChoice =
          forward settings backends (chosen settings backendChoice) p q >>=
            fun res => pure (view res) := by
  by_cases aligned : Aligned m k n
  · refine ⟨a.toNdArray, b.toNdArray, id, by rw [left, aligned.1, aligned.2.1],
      by rw [right, aligned.2.1, aligned.2.2], ?_, ?_⟩
    · intro res shape
      rw [aligned.1, aligned.2.2] at shape
      exact ⟨shape, rfl⟩
    · intro backends frames backendChoice
      rw [matmulPatch_aligned cpuA cpuB left right (frames + 1) backendChoice aligned]
      exact Traced.bind_pure.symm
  · obtain ⟨p, storedA, padA⟩ := assign_padded left
    obtain ⟨q, storedB, padB⟩ := assign_padded right
    refine ⟨p, q, fun res => res.crop [m, n], padA.shape, padB.shape, ?_, ?_⟩
    · intro res shape
      exact ⟨by simp [crop, shape, le_padded], rfl⟩
    · intro backends frames backendChoice
      rw [matmulPatch_matrices cpuA cpuB _ _ (by simp [left]) (by simp [right]),
        matmulMatrices_unaligned left right aligned storedA, storedB, Traced.lift_some,
        Traced.pure_bind, nested,
        matmulPatch_aligned (cpuA.holding p) (cpuB.holding q) padA.shape padB.shape frames _
          (aligned_padded m k n)]
      rfl

end Matrices

section Out

variable {res : NdArray R} {out : Option (NdArray R)}

theorem copy_same (out res : NdArray R) (shape : out.shape = res.shape) :
    ∃ c, out.copy res = some c ∧ SameValues c res := by
  obtain ⟨c, copied, shapeC, entry⟩ := expand_entry (expands_refl res.shape)
  refine ⟨c, by rw [copy, shape, copied], shapeC, fun index inside => ?_⟩
  rw [shapeC] at inside
  rw [entry, project_inside inside]

theorem handBack_same (out : Option (NdArray R)) (res : NdArray R)
    (shape : ∀ array, out = some array → array.shape = res.shape) :
    ∃ c, handBack out res = pure c ∧ SameValues c res := by
  cases out with
  | none => exact ⟨res, rfl, rfl, fun _ _ => rfl⟩
  | some array =>
      obtain ⟨c, copied, same⟩ := copy_same array res (shape array rfl)
      exact ⟨c, by rw [handBack, copied]; rfl, same⟩

end Out

section Vectors

variable [Zero R] {settings : Settings} {backends : Backends R} {a b : TorchTensor R}
  (cpuA : a.CpuFloat32) (cpuB : b.CpuFloat32) {m k n : Nat} {out : Option (NdArray R)}

include cpuA cpuB

theorem matmulPatch_row_out (left : a.shape = [k]) (right : b.shape = [k, n]) (frames : Nat)
    (backendChoice : Option Int) :
    matmulPatch settings backends (frames + 1) a b out backendChoice =
      nested settings backends frames backendChoice (a.holding (a.unsqueeze 0)) b >>=
        fun res => handBack out (res.squeeze 0) := by
  simp only [matmulPatch, cpuA.1, cpuA.2, cpuB.1, cpuB.2, left, right]
  rfl

-- The product is copied to out, and torch._matmul_original writes over it.
theorem matmulPatch_column_out {array : NdArray R} (left : a.shape = [m, k]) (right : b.shape = [k])
    (frames : Nat) (backendChoice : Option Int) :
    matmulPatch settings backends (frames + 1) a b (some array) backendChoice =
      nested settings backends frames backendChoice a (b.holding (b.unsqueeze 1)) >>=
        fun res => .lift (array.copy (res.squeeze 1)) >>= fun copied =>
          .lift (backends.matmulOriginal a b (some copied)) := by
  have raised : matmulSlices (nested settings backends frames backendChoice) a b = .raised :=
    matmulSlices_vector (.inr (by simp [right]))
  unfold nested at raised ⊢
  simp only [matmulPatch, cpuA.1, cpuA.2, cpuB.1, cpuB.2, left, right, List.length_cons,
    List.length_nil]
  simp only [chosen] at raised
  simp only [raised, Traced.raised_bind, Traced.attempt_raised]
  rfl

theorem rowVector_called {kernel : Kernel} (left : a.shape = [k]) (right : b.shape = [k, n])
    (selected : settings.select (padded 1) (padded k) (padded n) = some kernel)
    (outShape : ∀ array, out = some array → array.shape = [n]) (frames : Nat)
    (backendChoice : Option Int) :
    ∃ call, ∀ backends : Backends R, ComputesMatrices backends → ∃ computed c d,
      backends.kernel call = some computed ∧
      matmulPatch settings backends (frames + 3) a b out backendChoice = .called call (some c) ∧
      matmulPatch settings backends (frames + 3) (a.holding (a.unsqueeze 0)) b none backendChoice =
        .called call (some d) ∧
      SameValues c (d.squeeze 0) ∧ c.shape = [n] ∧
      ∀ column < n, c.entry [column] = computed.entry [0, column] := by
  obtain ⟨p, q, view, shapeP, shapeQ, shows, viewed⟩ := matrices_viewed settings
    (cpuA.holding (a.unsqueeze 0)) cpuB (shape_unsqueeze_row left) right
  let call : ExtensionCall R := ⟨kernel, p, q, chosen settings backendChoice⟩
  refine ⟨call, fun backends kernels => ?_⟩
  obtain ⟨computed, result, shape⟩ := kernels call _ _ _ shapeP shapeQ
  obtain ⟨shapeV, entryV⟩ := shows computed shape
  have squeezed : (view computed).squeeze 0 =
      { shape := [n], entry := fun index => (view computed).entry (0 :: index) } := by
    simp [squeeze, shapeV]
  have matrix (frames : Nat) (choice : Option Int)
      (same : chosen settings choice = chosen settings backendChoice) :
      matmulPatch settings backends (frames + 2) (a.holding (a.unsqueeze 0)) b none choice =
        .called call (some (view computed)) := by
    rw [viewed, same, forward_called shapeP shapeQ selected, result]
    rfl
  obtain ⟨c, handed, same⟩ := handBack_same out ((view computed).squeeze 0) (by
    intro array given
    rw [outShape array given, squeezed])
  have shapeC : c.shape = [n] := by rw [same.shape, squeezed]
  refine ⟨computed, c, view computed, result, ?_, matrix (frames + 1) _ rfl, same, shapeC, ?_⟩
  · rw [matmulPatch_row_out cpuA cpuB left right, nested,
      matrix frames (some (chosen settings backendChoice)) rfl]
    simp only [Bind.bind, Traced.chain, Traced.called, handed]
    rfl
  · intro column below
    rw [same.entry [column] (by rw [shapeC]; exact .cons below .nil), squeezed, entryV]

theorem columnVector_original (kernels : ComputesMatrices backends)
    (overwrites : OverwritesOut backends) (left : a.shape = [m, k]) (right : b.shape = [k])
    (outShape : ∀ array, out = some array → array.shape = [m]) (frames : Nat)
    (backendChoice : Option Int) :
    (matmulPatch settings backends (frames + 3) a b out backendChoice).result =
      (settings.select (padded m) (padded k) (padded 1)).bind fun _ =>
        backends.matmulOriginal a b out := by
  obtain ⟨p, q, view, shapeP, shapeQ, shows, viewed⟩ := matrices_viewed settings
    cpuA (cpuB.holding (b.unsqueeze 1)) left (shape_unsqueeze_column right)
  cases selected : settings.select (padded m) (padded k) (padded 1) with
  | none =>
      have raised (choice : Option Int) : matmulPatch settings backends (frames + 2) a
          (b.holding (b.unsqueeze 1)) none choice = .raised := by
        rw [viewed, forward_raised shapeP shapeQ selected]
        rfl
      cases out with
      | none => rw [matmulPatch_column cpuA cpuB _ _ left right, nested, raised]; rfl
      | some array => rw [matmulPatch_column_out cpuA cpuB left right, nested, raised]; rfl
  | some kernel =>
      obtain ⟨computed, result, shape⟩ := kernels
        ⟨kernel, p, q, chosen settings backendChoice⟩ _ _ _ shapeP shapeQ
      have called : matmulPatch settings backends (frames + 2) a (b.holding (b.unsqueeze 1)) none
          (some (chosen settings backendChoice)) =
          .called ⟨kernel, p, q, chosen settings backendChoice⟩ (some (view computed)) := by
        rw [viewed, chosen, Option.getD_some, forward_called shapeP shapeQ selected, result]
        rfl
      cases out with
      | none => rw [matmulPatch_column cpuA cpuB _ _ left right, nested, called]; rfl
      | some array =>
          have squeezed : ((view computed).squeeze 1).shape = [m] := by
            simp [squeeze, (shows computed shape).1]
          obtain ⟨copied, stored, same⟩ := copy_same array ((view computed).squeeze 1)
            (by rw [outShape array rfl, squeezed])
          have shapes : copied.shape = array.shape := by
            rw [same.shape, squeezed, outShape array rfl]
          rw [matmulPatch_column_out cpuA cpuB left right, nested, called]
          simp only [Bind.bind, Traced.chain, Traced.called, stored, Traced.lift]
          exact overwrites a b copied array shapes

end Vectors

def constantBackends (backends : Backends R) (value : R) : Backends R :=
  { kernel := fun call => some
      { shape := rowDims call.a.shape ++ columnDims call.b.shape, entry := fun _ => value }
    matmulOriginal := backends.matmulOriginal }

theorem constantBackends_matrices (backends : Backends R) (value : R) :
    ComputesMatrices (constantBackends backends value) := by
  intro call m k n left right
  exact ⟨_, rfl, by simp [left, right, rowDims, columnDims, lastTwo]⟩

section Agreement

variable [Zero R] {settings : Settings} {backends : Backends R} {a b : TorchTensor R}
  {k n : Nat} {out : Option (NdArray R)}

theorem rowVector_computedAsMatrix [Nontrivial R] {kernel : Kernel}
    (kernels : ComputesMatrices backends) (cpuA : a.CpuFloat32) (cpuB : b.CpuFloat32)
    (left : a.shape = [k]) (right : b.shape = [k, n]) (columns : 0 < n)
    (selected : settings.select (padded 1) (padded k) (padded n) = some kernel)
    (outShape : ∀ array, out = some array → array.shape = [n]) (frames : Nat)
    (backendChoice : Option Int) :
    ComputedAsMatrix a b settings backends (frames + 3) out backendChoice := by
  obtain ⟨call, called⟩ := rowVector_called cpuA cpuB left right selected outShape frames
    backendChoice
  obtain ⟨computed, c, d, result, vector, matrix, same, shape, entry⟩ := called backends kernels
  have axis : vectorAxis a = 0 := by simp [vectorAxis, left]
  have operands : asMatrices a b = (a.holding (a.unsqueeze 0), b) := by simp [asMatrices, left]
  constructor
  · refine ⟨c, d, by rw [vector]; rfl, ?_, by rwa [axis]⟩
    rw [operands, matrix]
    rfl
  · exact ⟨call, by rw [vector]; rfl⟩
  · intro discarded
    obtain ⟨value, different⟩ := exists_ne (computed.entry [0, 0])
    obtain ⟨constant, e, _, constantResult, other, _, _, _, otherEntry⟩ :=
      called (constantBackends backends value) (constantBackends_matrices backends value)
    have results := discarded (constantBackends backends value)
      (constantBackends_matrices backends value) rfl
    rw [vector, other] at results
    cases results
    cases constantResult
    exact different ((otherEntry 0 columns).symm.trans (entry 0 columns))

-- A vector is computed as the matrix it stands for exactly when it is the first operand, and the
-- message of NPUBLAS_VERBOSE does not stop the call.
theorem computedAsMatrix_iff [Nontrivial R] (kernels : ComputesMatrices backends)
    (overwrites : OverwritesOut backends) (cpuA : a.CpuFloat32) (cpuB : b.CpuFloat32)
    {shape : List Nat} (operands : VectorOperands a.shape b.shape shape)
    (outShape : ∀ array, out = some array → array.shape = shape) (frames : Nat)
    (backendChoice : Option Int) :
    ComputedAsMatrix a b settings backends (frames + 3) out backendChoice ↔
      ∃ k n, a.shape = [k] ∧ b.shape = [k, n] ∧ settings.Selects 1 k n := by
  generalize left : a.shape = shapeA at operands
  generalize right : b.shape = shapeB at operands
  cases operands with
  | row k n inner columns =>
      cases selected : settings.select (padded 1) (padded k) (padded n) with
      | some kernel =>
          refine iff_of_true ?_ ⟨k, n, rfl, rfl, by simp [Settings.Selects, selected]⟩
          exact rowVector_computedAsMatrix kernels cpuA cpuB left right columns selected outShape
            frames backendChoice
      | none =>
          refine iff_of_false ?_ ?_
          · intro computed
            obtain ⟨p, q, view, shapeP, shapeQ, _, viewed⟩ := matrices_viewed
              settings (cpuA.holding (a.unsqueeze 0)) cpuB
              (shape_unsqueeze_row left) right
            obtain ⟨call, made⟩ := computed.once
            rw [matmulPatch_row_out cpuA cpuB left right, nested, viewed,
              forward_raised shapeP shapeQ selected] at made
            cases made
          · rintro ⟨_, _, same, sameB, selects⟩
            cases same
            cases sameB
            simp [Settings.Selects, selected] at selects
  | column m k rows inner =>
      refine iff_of_false ?_ ?_
      · intro computed
        apply computed.used
        intro other otherKernels original
        have otherOverwrites : OverwritesOut other := by rwa [OverwritesOut, original]
        rw [columnVector_original cpuA cpuB otherKernels otherOverwrites left right outShape,
          columnVector_original cpuA cpuB kernels overwrites left right outShape, original]
      · rintro ⟨_, _, same, _⟩
        cases same

end Agreement

section Sample

theorem multiplyingBackends_matrices : ComputesMatrices multiplyingBackends := by
  intro call m k n left right
  have multiplies : Multipliable call.a.shape call.b.shape k [] := by
    constructor <;> simp [left, right, innerLeft, innerRight, leading, lastTwo]
  obtain ⟨c, result, product⟩ := multiply_product (a := call.a) (b := call.b) multiplies
  exact ⟨c, result, ((isProduct_matrices left right).mp product).1⟩

theorem rowVector_sample :
    ComputedAsMatrix (tensorOf [4]) (tensorOf [4, 4]) plainSettings multiplyingBackends 3 none
        none ↔
      ∃ k n, (tensorOf [4]).shape = [k] ∧ (tensorOf [4, 4]).shape = [k, n] ∧
        plainSettings.Selects 1 k n :=
  computedAsMatrix_iff multiplyingBackends_matrices (fun _ _ _ _ _ => rfl) ⟨rfl, rfl⟩ ⟨rfl, rfl⟩
    (.row 4 4 (by decide) (by decide)) (by
      intro array given
      cases given) 0 none

-- A kernel that computes zeros, and the sum of four ones that comes back.
theorem columnVector_discarded :
    (∃ c d call,
      (matmulPatch plainSettings (constantBackends multiplyingBackends 0) 3 (tensorOf [4, 4])
        (tensorOf [4]) none none) = { calls := [call], result := some c } ∧
      (matmulPatch plainSettings (constantBackends multiplyingBackends 0) 3
        (asMatrices (tensorOf [4, 4]) (tensorOf [4])).1
        (asMatrices (tensorOf [4, 4]) (tensorOf [4])).2 none none).result = some d ∧
      c.entry [0] = 4 ∧ (d.squeeze 1).entry [0] = 0) ∧
    ¬ ComputedAsMatrix (tensorOf [4, 4]) (tensorOf [4]) plainSettings
        (constantBackends multiplyingBackends 0) 3 none none := by
  refine ⟨⟨_, _, _, rfl, rfl, rfl, rfl⟩, ?_⟩
  rintro ⟨⟨c, d, vector, matrix, same⟩, _, _⟩
  cases vector
  cases matrix
  exact absurd (same.entry [0] (by decide)) (by decide)

end Sample

end NpuMatmul
