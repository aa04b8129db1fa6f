import NpuMatmul.Dispatch.MatmulPatch

set_option autoImplicit false

namespace NpuMatmul

open NdArray RowMajor

variable {R : Type}

def TorchTensor.CpuFloat32 (a : TorchTensor R) : Prop := a.isCuda = false ∧ a.isFloat32 = true

theorem TorchTensor.CpuFloat32.holding {a : TorchTensor R} (cpu : a.CpuFloat32)
    (contents : NdArray R) : (a.holding contents).CpuFloat32 := cpu

theorem shape_unsqueeze_row {a : TorchTensor R} {k : Nat} (shape : a.shape = [k]) :
    (a.holding (a.unsqueeze 0)).shape = [1, k] := by
  simp [TorchTensor.holding, unsqueeze, shape]

theorem shape_unsqueeze_column {b : TorchTensor R} {l : Nat} (shape : b.shape = [l]) :
    (b.holding (b.unsqueeze 1)).shape = [l, 1] := by
  simp [TorchTensor.holding, unsqueeze, shape]

inductive Ranks : List Nat → List Nat → Prop where
  | vectors (k l : Nat) : Ranks [k] [l]
  | rowVector (k l n : Nat) : Ranks [k] [l, n]
  | columnVector (m k l : Nat) : Ranks [m, k] [l]
  | matrices (m k l n : Nat) : Ranks [m, k] [l, n]
  | rows {lead : List Nat} (several : lead ≠ []) (m k l n : Nat) : Ranks (lead ++ [m, k]) [l, n]
  | slices (lead : List Nat) {leadB : List Nat} (several : leadB ≠ []) (m k l n : Nat) :
      Ranks (lead ++ [m, k]) (leadB ++ [l, n])
  | vectorSlices (k : Nat) {leadB : List Nat} (several : leadB ≠ []) (l n : Nat) :
      Ranks [k] (leadB ++ [l, n])
  | slicesVector {lead : List Nat} (several : lead ≠ []) (m k l : Nat) :
      Ranks (lead ++ [m, k]) [l]

theorem ranks_of {shape other : List Nat} (present : shape ≠ []) (presentB : other ≠ []) :
    Ranks shape other := by
  have dims {shape : List Nat} (present : shape ≠ []) :
      (∃ size, shape = [size]) ∨ ∃ lead rows columns, shape = lead ++ [rows, columns] := by
    have positive := List.length_pos_of_ne_nil present
    by_cases vector : shape.length < 2
    · exact .inl (List.length_eq_one_iff.mp (by omega))
    · exact .inr (exists_lead (Nat.le_of_not_lt vector))
  rcases dims present with ⟨k, rfl⟩ | ⟨lead, m, k, rfl⟩ <;>
    rcases dims presentB with ⟨l, rfl⟩ | ⟨leadB, l, n, rfl⟩
  · exact .vectors k l
  · cases leadB with
    | nil => exact .rowVector k l n
    | cons size leadB => exact .vectorSlices k (List.cons_ne_nil size leadB) l n
  · cases lead with
    | nil => exact .columnVector m k l
    | cons size lead => exact .slicesVector (List.cons_ne_nil size lead) m k l
  · cases leadB with
    | cons size leadB => exact .slices lead (List.cons_ne_nil size leadB) m k l n
    | nil =>
        cases lead with
        | nil => exact .matrices m k l n
        | cons size lead => exact .rows (List.cons_ne_nil size lead) m k l n

section Unfolding

variable [Zero R] (settings : Settings) (backends : Backends R) {a b : TorchTensor R}

def chosen (backendChoice : Option Int) : Int :=
  backendChoice.getD settings.defaultBackendChoice

def nested (frames : Nat) (backendChoice : Option Int) (a b : TorchTensor R) :
    Dispatch R (NdArray R) :=
  matmulPatch settings backends frames a b none (some (chosen settings backendChoice))

variable {settings backends} (cpuA : a.CpuFloat32) (cpuB : b.CpuFloat32) (frames : Nat)
  (backendChoice : Option Int)

include cpuA cpuB

theorem matmulPatch_rowVector (rankA : a.shape.length = 1) (rankB : b.shape.length = 2) :
    matmulPatch settings backends (frames + 1) a b none backendChoice =
      nested settings backends frames backendChoice (a.holding (a.unsqueeze 0)) b >>=
        fun res => pure (res.squeeze 0) := by
  simp only [matmulPatch, cpuA.1, cpuA.2, cpuB.1, cpuB.2, rankA, rankB]
  rfl

theorem matmulPatch_columnVector (rankA : a.shape.length = 2) (rankB : b.shape.length = 1) :
    matmulPatch settings backends (frames + 1) a b none backendChoice =
      nested settings backends frames backendChoice a (b.holding (b.unsqueeze 1)) >>= fun _ =>
        (matmulSlices (nested settings backends frames backendChoice) a b).attempt
          (.lift (backends.matmulOriginal a b none)) := by
  rw [← Traced.bind_pure (t := matmulSlices _ a b)]
  simp only [matmulPatch, cpuA.1, cpuA.2, cpuB.1, cpuB.2, rankA, rankB]
  rfl

theorem matmulPatch_matrices (rankA : a.shape.length = 2) (rankB : b.shape.length = 2) :
    matmulPatch settings backends (frames + 1) a b none backendChoice =
      matmulMatrices (nested settings backends frames backendChoice) a b
        (forward settings backends (chosen settings backendChoice)) := by
  rw [← Traced.bind_pure (t := matmulMatrices _ a b _)]
  simp only [matmulPatch, cpuA.1, cpuA.2, cpuB.1, cpuB.2, rankA, rankB]
  rfl

theorem matmulPatch_rows (rankA : 2 < a.shape.length) (rankB : b.shape.length = 2) :
    matmulPatch settings backends (frames + 1) a b none backendChoice =
      matmulRows (nested settings backends frames backendChoice) a b := by
  rw [← Traced.bind_pure (t := matmulRows _ a b)]
  simp only [matmulPatch, cpuA.1, cpuA.2, cpuB.1, cpuB.2]
  split
  · contradiction
  · split
    · omega
    · omega
    · omega
    · rw [if_pos (by simp [rankA, rankB])]
      rfl

theorem matmulPatch_slices (matrix : b.shape.length = 2 → a.shape.length = 0)
    (column : b.shape.length = 1 → a.shape.length ≠ 2) :
    matmulPatch settings backends (frames + 1) a b none backendChoice =
      (matmulSlices (nested settings backends frames backendChoice) a b).attempt
        (.lift (backends.matmulOriginal a b none)) := by
  rw [← Traced.bind_pure (t := matmulSlices _ a b)]
  simp only [matmulPatch, cpuA.1, cpuA.2, cpuB.1, cpuB.2]
  split
  · contradiction
  · split
    · omega
    · omega
    · omega
    · split
      · simp_all
      · rfl

end Unfolding

section Matrices

variable {settings : Settings} {backends : Backends R} {backendChoice : Int} {m k l n : Nat}

theorem forward_called {a b : NdArray R} {kernel : Kernel} (left : a.shape = [m, k])
    (right : b.shape = [l, n]) (selected : settings.select m k n = some kernel) :
    forward settings backends backendChoice a b =
      .called ⟨kernel, a, b, backendChoice⟩ (backends.kernel ⟨kernel, a, b, backendChoice⟩) := by
  simp [forward, left, right, selected]

theorem forward_raised {a b : NdArray R} (left : a.shape = [m, k]) (right : b.shape = [l, n])
    (unselected : settings.select m k n = none) :
    forward settings backends backendChoice a b = .raised := by
  simp [forward, left, right, unselected]

def Aligned (m k n : Nat) : Prop := padded m = m ∧ padded k = k ∧ padded n = n

theorem aligned_iff : Aligned m k n ↔ 4 ∣ m ∧ 4 ∣ k ∧ 4 ∣ n := by
  unfold Aligned padded
  omega

theorem aligned_padded (m k n : Nat) : Aligned (padded m) (padded k) (padded n) := by
  unfold Aligned padded
  omega

theorem le_padded (size : Nat) : size ≤ padded size := by
  unfold padded
  omega

variable [Zero R] {recurse : TorchTensor R → TorchTensor R → Dispatch R (NdArray R)}
  {a b : TorchTensor R} {apply : NdArray R → NdArray R → Dispatch R (NdArray R)}

theorem matmulMatrices_aligned (left : a.shape = [m, k]) (right : b.shape = [l, n])
    (aligned : Aligned m k n) :
    matmulMatrices recurse a b apply = apply a.toNdArray b.toNdArray := by
  simp [matmulMatrices, left, right, aligned.1, aligned.2.1, aligned.2.2]

structure PaddedBy (rows columns : Nat) (a p : NdArray R) : Prop where
  shape : p.shape = [padded rows, padded columns]
  entry : ∀ row column, p.entry [row, column] =
    if row < rows ∧ column < columns then a.entry [row, column] else 0

theorem assign_padded {a : NdArray R} {rows columns : Nat} (shape : a.shape = [rows, columns]) :
    ∃ p, (zeros [padded rows, padded columns]).assign [rows, columns] a = some p ∧
      PaddedBy rows columns a p := by
  have fills : List.zipWith min [rows, columns]
      (zeros [padded rows, padded columns] : NdArray R).shape = a.shape := by
    simp [zeros, shape, le_padded]
  obtain ⟨p, stored, size, entry⟩ := assign_entry fills
  refine ⟨p, stored, size, fun row column => ?_⟩
  rw [entry, shape]
  simp [inside_cons, zeros]

theorem matmulMatrices_unaligned {p : NdArray R} (left : a.shape = [m, k])
    (right : b.shape = [l, n]) (unaligned : ¬ Aligned m k n)
    (stored : (zeros [padded m, padded k]).assign [m, k] a.toNdArray = some p) :
    matmulMatrices recurse a b apply =
      .lift ((zeros [padded k, padded n]).assign [k, n] b.toNdArray) >>= fun q =>
        recurse (a.holding p) (b.holding q) >>= fun res => pure (res.crop [m, n]) := by
  have unequal : padded m ≠ m ∨ padded k ≠ k ∨ padded n ≠ n := by
    simpa only [Aligned, not_and_or] using unaligned
  simp only [matmulMatrices, left, right, if_pos unequal, stored]
  rfl

theorem expands_slice : Expands [l, n]
    (List.zipWith min [k, n] (zeros [padded k, padded n] : NdArray R).shape) ↔ l = k ∨ l = 1 := by
  simp [Expands, zeros, le_padded]

theorem matmulMatrices_rejected (left : a.shape = [m, k]) (right : b.shape = [l, n])
    (unaligned : ¬ Aligned m k n) (differs : l ≠ k) (long : l ≠ 1) :
    matmulMatrices recurse a b apply = .raised := by
  obtain ⟨p, stored, _⟩ := assign_padded left
  have apart : ¬ Expands b.shape (List.zipWith min [k, n]
      (zeros [padded k, padded n] : NdArray R).shape) := by
    rw [right, expands_slice]
    exact not_or.mpr ⟨differs, long⟩
  rw [matmulMatrices_unaligned left right unaligned stored, assign_none apart]
  rfl

theorem matmulMatrices_padded (left : a.shape = [m, k]) (right : b.shape = [l, n])
    (unaligned : ¬ Aligned m k n) (stores : l = k ∨ l = 1) :
    ∃ p q, PaddedBy m k a.toNdArray p ∧ q.shape = [padded k, padded n] ∧
      (l = k → PaddedBy k n b.toNdArray q) ∧
      matmulMatrices recurse a b apply =
        recurse (a.holding p) (b.holding q) >>= fun res => pure (res.crop [m, n]) := by
  obtain ⟨p, stored, padA⟩ := assign_padded left
  rw [matmulMatrices_unaligned left right unaligned stored]
  by_cases agrees : l = k
  · obtain ⟨q, storedB, padB⟩ := assign_padded (agrees ▸ right)
    exact ⟨p, q, padA, padB.shape, fun _ => padB, by rw [storedB]; rfl⟩
  · have expands : Expands b.shape (List.zipWith min [k, n]
        (zeros [padded k, padded n] : NdArray R).shape) := by
      rw [right, expands_slice]
      exact stores
    obtain ⟨q, storedB, shape⟩ := assign_shape expands
    exact ⟨p, q, padA, shape, fun same => absurd same agrees, by rw [storedB]; rfl⟩

section Patch

variable (cpuA : a.CpuFloat32) (cpuB : b.CpuFloat32) (left : a.shape = [m, k])
  (right : b.shape = [l, n]) (frames : Nat) (backendChoice : Option Int)

include cpuA cpuB left right

theorem matmulPatch_aligned (aligned : Aligned m k n) :
    matmulPatch settings backends (frames + 1) a b none backendChoice =
      forward settings backends (chosen settings backendChoice) a.toNdArray b.toNdArray := by
  rw [matmulPatch_matrices cpuA cpuB _ _ (by simp [left]) (by simp [right]),
    matmulMatrices_aligned left right aligned]

theorem matmulPatch_padded (unaligned : ¬ Aligned m k n) (stores : l = k ∨ l = 1) :
    ∃ p q, PaddedBy m k a.toNdArray p ∧ q.shape = [padded k, padded n] ∧
      (l = k → PaddedBy k n b.toNdArray q) ∧
      matmulPatch settings backends (frames + 2) a b none backendChoice =
        forward settings backends (chosen settings backendChoice) p q >>=
          fun res => pure (res.crop [m, n]) := by
  obtain ⟨p, q, padA, shapeQ, padB, same⟩ := matmulMatrices_padded left right unaligned stores
  refine ⟨p, q, padA, shapeQ, padB, ?_⟩
  rw [matmulPatch_matrices cpuA cpuB _ _ (by simp [left]) (by simp [right]), same, nested,
    matmulPatch_aligned (cpuA.holding p) (cpuB.holding q) padA.shape shapeQ frames _
      (aligned_padded m k n)]
  rfl

end Patch

theorem matmulPatch_call {kernel : Kernel} (cpuA : a.CpuFloat32) (cpuB : b.CpuFloat32)
    (left : a.shape = [m, k]) (right : b.shape = [k, n])
    (selected : settings.select (padded m) (padded k) (padded n) = some kernel) (frames : Nat)
    (backendChoice : Option Int) :
    ∃ call, (matmulPatch settings backends (frames + 2) a b none backendChoice).calls = [call] ∧
      call.kernel = kernel ∧ call.backendChoice = chosen settings backendChoice ∧
      call.a.shape = [padded m, padded k] ∧ call.b.shape = [padded k, padded n] := by
  by_cases aligned : Aligned m k n
  · have padA : a.shape = [padded m, padded k] := by rw [left, aligned.1, aligned.2.1]
    have padB : b.shape = [padded k, padded n] := by rw [right, aligned.2.1, aligned.2.2]
    rw [matmulPatch_aligned cpuA cpuB left right _ _ aligned, forward_called padA padB selected]
    exact ⟨_, rfl, rfl, rfl, padA, padB⟩
  · obtain ⟨p, q, padA, shapeQ, _, same⟩ :=
      matmulPatch_padded cpuA cpuB left right frames backendChoice aligned (.inl rfl)
    rw [same, Traced.calls_bind fun _ => rfl, forward_called padA.shape shapeQ selected]
    exact ⟨_, rfl, rfl, rfl, padA.shape, shapeQ⟩

end Matrices

section Slices

variable {recurse : TorchTensor R → TorchTensor R → Dispatch R (NdArray R)}
  {a b : TorchTensor R} {lead leadB batch : List Nat} {m k l n : Nat}

theorem matmulRows_flattened
    (recurse : TorchTensor R → TorchTensor R → Dispatch R (NdArray R))
    (left : a.shape = lead ++ [m, k]) (right : b.shape = [l, n]) (elements : 0 < k) :
    ∃ f : NdArray R, f.shape = [(lead ++ [m]).prod, k] ∧
      (∀ i rest, i < (lead ++ [m]).prod → Inside [k] rest →
        f.entry (i :: rest) = a.entry (unravel (lead ++ [m]) i ++ rest)) ∧
      matmulRows recurse a b = recurse (a.holding f) b >>=
        fun res => .lift (res.reshape ((lead ++ [m]) ++ [n])) := by
  have shape : a.shape = (lead ++ [m]) ++ [k] := by simp [left]
  obtain ⟨f, flattened, shapeF, entryF⟩ := reshapeRows_entry shape (by simpa using elements)
  refine ⟨f, shapeF, entryF, ?_⟩
  have lastA : fromEnd a.shape 1 = some k := by rw [left, fromEnd_one]
  have lastB : fromEnd b.shape 1 = some n := by simp [right, fromEnd]
  have back : a.shape.dropLast ++ [n] = (lead ++ [m]) ++ [n] := by simp [shape]
  simp only [matmulRows, lastA, lastB, flattened, Traced.lift_some, Traced.pure_bind, back]

theorem matmulRows_empty (left : a.shape = lead ++ [m, 0]) : matmulRows recurse a b = .raised := by
  have lastA : fromEnd a.shape 1 = some 0 := by rw [left, fromEnd_one]
  have ambiguous : a.reshapeRows [0] = none := by simp [reshapeRows]
  simp only [matmulRows, lastA, ambiguous, Traced.lift_some, Traced.pure_bind]
  exact Traced.lift_bind_raised fun _ _ => rfl

theorem matmulSlices_vector (vector : a.shape.length < 2 ∨ b.shape.length < 2) :
    matmulSlices recurse a b = .raised := by
  have missing {shape : List Nat} (short : shape.length < 2) : fromEnd shape 2 = none := by
    simp [fromEnd, short]
  refine Traced.lift_bind_raised fun broadcastBatch _ => ?_
  refine Traced.lift_bind_raised fun aExpanded _ => ?_
  refine Traced.lift_bind_raised fun bExpanded _ => ?_
  rcases vector with short | short
  · rw [missing short]
    rfl
  · refine Traced.lift_bind_raised fun rowsA _ => ?_
    refine Traced.lift_bind_raised fun columnsA _ => ?_
    refine Traced.lift_bind_raised fun aFlat _ => ?_
    rw [missing short]
    rfl

-- Matrices without elements leave the -1 of the reshape without a size.
theorem matmulSlices_empty (left : a.shape = lead ++ [m, k]) (right : b.shape = leadB ++ [l, n])
    (empty : m * k = 0 ∨ l * n = 0) : matmulSlices recurse a b = .raised := by
  have ambiguous {a : NdArray R} {rows columns : Nat} (none : rows * columns = 0) :
      a.reshapeRows [rows, columns] = .none := by
    simp only [reshapeRows, List.prod_cons, List.prod_nil, Nat.mul_one, if_pos none]
  refine Traced.lift_bind_raised fun broadcastBatch _ => ?_
  refine Traced.lift_bind_raised fun aExpanded _ => ?_
  refine Traced.lift_bind_raised fun bExpanded _ => ?_
  simp only [left, right, fromEnd_one, fromEnd_two, Traced.lift_some, Traced.pure_bind]
  rcases empty with empty | empty
  · rw [ambiguous empty]
    rfl
  · refine Traced.lift_bind_raised fun aFlat _ => ?_
    rw [ambiguous empty]
    rfl

structure SliceOf (lead batch : List Nat) (rows columns : Nat) (a : NdArray R) (i : Nat)
    (slice : NdArray R) : Prop where
  shape : slice.shape = [rows, columns]
  entry : ∀ row < rows, ∀ column < columns, slice.entry [row, column] =
    a.entry (project lead (unravel batch i) ++ [row, column])

theorem slice_of {a : NdArray R} (shape : a.shape = lead ++ [m, k]) (expands : Expands lead batch)
    (elements : 0 < m * k) :
    ∃ e f, a.expand (batch ++ [m, k]) = some e ∧ e.reshapeRows [m, k] = some f ∧
      f.shape = [batch.prod, m, k] ∧
      ∀ i < batch.prod, ∃ slice, f.select i = some slice ∧ SliceOf lead batch m k a i slice := by
  have whole : Expands a.shape (batch ++ [m, k]) := by
    rw [shape]
    exact expands.append [m, k]
  obtain ⟨e, expanded, shapeE, entryE⟩ := expand_entry whole
  obtain ⟨f, flattened, shapeF, entryF⟩ := reshapeRows_entry shapeE (by simpa using elements)
  refine ⟨e, f, expanded, flattened, shapeF, fun i below => ?_⟩
  obtain ⟨slice, selected, shapeS, entryS⟩ := select_entry shapeF below
  refine ⟨slice, selected, shapeS, fun row rowBelow column columnBelow => ?_⟩
  have inside : Inside [m, k] [row, column] := .cons rowBelow (.cons columnBelow .nil)
  have ranks : lead.length ≤ (unravel batch i).length := by
    rw [(inside_unravel below).length_eq]
    exact expands.1
  rw [entryS, entryF i _ below inside, entryE, shape, project_append inside ranks]

theorem matmulSlices_each
    (recurse : TorchTensor R → TorchTensor R → Dispatch R (NdArray R))
    (left : a.shape = lead ++ [m, k]) (right : b.shape = leadB ++ [l, n])
    (common : broadcastShapes lead leadB = some batch) (elementsA : 0 < m * k)
    (elementsB : 0 < l * n) :
    ∃ step, matmulSlices recurse a b = Traced.each step batch.prod >>= (fun results =>
        .lift (stack results) >>= fun stacked => .lift (stacked.reshape (batch ++ [m, n]))) ∧
      ∀ i < batch.prod, ∃ aSlice bSlice, SliceOf lead batch m k a.toNdArray i aSlice ∧
        SliceOf leadB batch l n b.toNdArray i bSlice ∧
        step i = recurse (a.holding aSlice) (b.holding bSlice) := by
  have expandsA := expands_common common
  have expandsB := expands_common (broadcastShapes_comm.trans common)
  obtain ⟨e, f, expandedA, flattenedA, shapeA, slicesA⟩ := slice_of left expandsA elementsA
  obtain ⟨g, h, expandedB, flattenedB, _, slicesB⟩ := slice_of right expandsB elementsB
  refine ⟨fun i => .lift (f.select i) >>= fun aSlice => .lift (h.select i) >>= fun bSlice =>
    recurse (a.holding aSlice) (b.holding bSlice), ?_, fun i below => ?_⟩
  · simp only [matmulSlices, left, right, leading_append, lastTwo_append, common, expandedA,
      expandedB, fromEnd_one, fromEnd_two, flattenedA, flattenedB, shapeA, Traced.lift_some,
      Traced.pure_bind, List.headD_cons]
  · obtain ⟨aSlice, selectedA, sliceA⟩ := slicesA i below
    obtain ⟨bSlice, selectedB, sliceB⟩ := slicesB i below
    refine ⟨aSlice, bSlice, sliceA, sliceB, ?_⟩
    simp only [selectedA, selectedB, Traced.lift_some, Traced.pure_bind]

end Slices

section Vectors

variable [Zero R] {settings : Settings} {backends : Backends R} {a b : TorchTensor R}
  (cpuA : a.CpuFloat32) (cpuB : b.CpuFloat32) (frames : Nat) (backendChoice : Option Int)

include cpuA cpuB

theorem matmulPatch_vector (vector : a.shape.length < 2 ∨ b.shape.length < 2)
    (matrix : b.shape.length = 2 → a.shape.length = 0)
    (column : b.shape.length = 1 → a.shape.length ≠ 2) :
    matmulPatch settings backends (frames + 1) a b none backendChoice =
      .lift (backends.matmulOriginal a b none) := by
  rw [matmulPatch_slices cpuA cpuB frames backendChoice matrix column, matmulSlices_vector vector,
    Traced.attempt_raised]

theorem matmulPatch_column {m k l : Nat} (left : a.shape = [m, k]) (right : b.shape = [l]) :
    matmulPatch settings backends (frames + 1) a b none backendChoice =
      nested settings backends frames backendChoice a (b.holding (b.unsqueeze 1)) >>= fun _ =>
        .lift (backends.matmulOriginal a b none) := by
  have vector : b.shape.length < 2 := by simp [right]
  rw [matmulPatch_columnVector cpuA cpuB frames backendChoice (by simp [left]) (by simp [right]),
    matmulSlices_vector (.inr vector), Traced.attempt_raised]

end Vectors

end NpuMatmul
