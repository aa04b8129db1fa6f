import NpuMatmul.Dispatch.BatchedMatmul

set_option autoImplicit false

namespace NpuMatmul

open NdArray

variable {R : Type}

def Rejected (t : Dispatch R (NdArray R)) : Prop := t.calls = [] ∧ t.result = none

-- b.size(0) = a.size(1), so that B has the K * N entries the kernels read.
def ExtensionCall.Matched (call : ExtensionCall R) : Prop := call.b.shape.head? = call.a.shape[1]?

def Settings.Selects (settings : Settings) (m k n : Nat) : Prop :=
  (settings.select (padded m) (padded k) (padded n)).isSome = true

-- An m x k matrix times an l x n one: the kernel is called on them as they are, or because the one
-- row of b is broadcast over the padding.
def Settings.ReadsBeyond (settings : Settings) (m k _ n : Nat) : Prop :=
  Aligned m k n ∧ settings.Selects m k n

def Settings.Computes (settings : Settings) (m k l n : Nat) : Prop :=
  (Aligned m k n ∨ l = 1) ∧ settings.Selects m k n

def Reaches (holds : Nat → Nat → Nat → Nat → Prop) (shape other : List Nat) : Prop :=
  match lastTwo shape, lastTwo other with
  | [k], [l, n] => leading other = [] ∧ holds 1 k l n
  | [m, k], [l] => leading shape = [] ∧ holds m k l 1
  | [m, k], [l, n] =>
      if leading other = [] then
        (leading shape = [] ∨ 0 < k) ∧ holds (leading shape ++ [m]).prod k l n
      else
        match broadcastShapes (leading shape) (leading other) with
        | some batch => 0 < batch.prod ∧ 0 < m * k ∧ 0 < l * n ∧ holds m k l n
        | none => False
  | _, _ => False

structure Handled (settings : Settings) (m k l n : Nat) {α : Type}
    (t : Dispatch R α) : Prop where
  rejects : ¬ settings.Computes m k l n → t = .raised
  computes : settings.Computes m k l n → ∃ call, call ∈ t.calls
  beyond : settings.ReadsBeyond m k l n → ∃ call ∈ t.calls, ¬ call.Matched
  within : ¬ settings.ReadsBeyond m k l n → ∀ call ∈ t.calls, call.Matched

section Handled

variable {settings : Settings} {backends : Backends R} {m k l n : Nat} {α β : Type}

theorem Handled.bind {t : Dispatch R α} {next : α → Dispatch R β}
    (handled : Handled settings m k l n t) (silent : ∀ value, (next value).calls = []) :
    Handled settings m k l n (t >>= next) := by
  constructor
  · intro rejected
    rw [handled.rejects rejected, Traced.raised_bind]
  · intro computed
    obtain ⟨call, made⟩ := handled.computes computed
    exact ⟨call, Traced.mem_calls_bind made⟩
  · intro beyond
    obtain ⟨call, made, unmatched⟩ := handled.beyond beyond
    exact ⟨call, Traced.mem_calls_bind made, unmatched⟩
  · intro within
    apply Traced.forall_calls_bind (handled.within within)
    intro value call made
    rw [silent value] at made
    cases made

theorem Handled.each {step : Nat → Dispatch R α} {count : Nat} (present : 0 < count)
    (handled : ∀ i < count, Handled settings m k l n (step i)) :
    Handled settings m k l n (Traced.each step count) := by
  obtain ⟨others, rfl⟩ := Nat.exists_eq_succ_of_ne_zero present.ne'
  have first := handled 0 present
  constructor
  · exact fun rejected => Traced.each_raised (first.rejects rejected)
  · intro computed
    obtain ⟨call, made⟩ := first.computes computed
    exact ⟨call, Traced.mem_calls_each made⟩
  · intro beyond
    obtain ⟨call, made, unmatched⟩ := first.beyond beyond
    exact ⟨call, Traced.mem_calls_each made, unmatched⟩
  · exact fun within => Traced.forall_calls_each fun i below => (handled i below).within within

theorem Handled.raised (rejected : ¬ settings.Computes m k l n) :
    Handled settings m k l n (.raised : Dispatch R α) := by
  constructor
  · exact fun _ => rfl
  · exact fun computed => absurd computed rejected
  · exact fun beyond => absurd ⟨.inl beyond.1, beyond.2⟩ rejected
  · exact fun _ _ made => absurd made List.not_mem_nil

theorem forward_handled {a b : NdArray R} {size : Nat} (backendChoice : Int)
    (left : a.shape = [padded m, padded k]) (right : b.shape = [size, padded n])
    (padding : Aligned m k n ∨ l = 1)
    (matched : size = padded k ↔ ¬ Aligned m k n) :
    Handled settings m k l n (forward settings backends backendChoice a b) := by
  cases selected : settings.select (padded m) (padded k) (padded n) with
  | none =>
      rw [forward_raised left right selected]
      apply Handled.raised
      simp [Settings.Computes, Settings.Selects, selected]
  | some kernel =>
      have selects : settings.Selects m k n := by simp [Settings.Selects, selected]
      rw [forward_called left right selected]
      constructor
      · exact fun rejected => absurd ⟨padding, selects⟩ rejected
      · exact fun _ => ⟨_, List.mem_singleton_self _⟩
      · intro beyond
        refine ⟨_, List.mem_singleton_self _, ?_⟩
        simp [ExtensionCall.Matched, left, right, matched, beyond.1]
      · intro within call made
        rw [List.mem_singleton.mp made]
        have unaligned : ¬ Aligned m k n := fun aligned => within ⟨aligned, selects⟩
        simp [ExtensionCall.Matched, left, right, matched, unaligned]

theorem matrices_handled [Zero R] {a b : TorchTensor R} (cpuA : a.CpuFloat32)
    (cpuB : b.CpuFloat32) (left : a.shape = [m, k]) (right : b.shape = [l, n]) (differ : k ≠ l)
    (frames : Nat) (backendChoice : Option Int) :
    Handled settings m k l n
      (matmulPatch settings backends (frames + 2) a b none backendChoice) := by
  by_cases aligned : Aligned m k n
  · rw [matmulPatch_aligned cpuA cpuB left right _ _ aligned]
    have shapeA : a.shape = [padded m, padded k] := by rw [left, aligned.1, aligned.2.1]
    have shapeB : b.shape = [l, padded n] := by rw [right, aligned.2.2]
    apply forward_handled _ shapeA shapeB (.inl aligned)
    rw [aligned.2.1]
    exact ⟨fun same => absurd same.symm differ, fun unaligned => absurd aligned unaligned⟩
  · by_cases single : l = 1
    · obtain ⟨p, q, padA, shapeQ, _, same⟩ :=
        matmulPatch_padded cpuA cpuB left right frames backendChoice aligned (.inr single)
      rw [same]
      apply Handled.bind _ fun _ => rfl
      exact forward_handled _ padA.shape shapeQ (.inr single) (by simp [aligned])
    · rw [matmulPatch_matrices cpuA cpuB _ _ (by simp [left]) (by simp [right]),
        matmulMatrices_rejected left right aligned (Ne.symm differ) single]
      apply Handled.raised
      rintro ⟨aligns | one, _⟩
      · exact aligned aligns
      · exact single one

end Handled

structure Settled (settings : Settings) (shape other : List Nat) (t : Dispatch R (NdArray R)) :
    Prop where
  rejected : Rejected t ↔ ¬ Reaches settings.Computes shape other
  matched : (∀ call ∈ t.calls, call.Matched) ↔ ¬ Reaches settings.ReadsBeyond shape other

section Settled

variable {settings : Settings} {backends : Backends R} {shape other lead leadB : List Nat}
  {m k l n : Nat} {t : Dispatch R (NdArray R)}

theorem Handled.settled (handled : Handled settings m k l n t)
    (reaches : ∀ holds, Reaches holds shape other ↔ holds m k l n) :
    Settled settings shape other t := by
  constructor
  · rw [reaches]
    constructor
    · rintro ⟨silent, _⟩ computed
      obtain ⟨call, made⟩ := handled.computes computed
      simp [silent] at made
    · intro rejected
      rw [handled.rejects rejected]
      exact ⟨rfl, rfl⟩
  · rw [reaches]
    constructor
    · intro matched beyond
      obtain ⟨call, made, unmatched⟩ := handled.beyond beyond
      exact unmatched (matched call made)
    · exact handled.within

theorem settled_raised (never : ∀ holds, ¬ Reaches holds shape other) :
    Settled settings shape other (.raised : Dispatch R (NdArray R)) := by
  constructor
  · exact ⟨fun _ => never _, fun _ => ⟨rfl, rfl⟩⟩
  · exact ⟨fun _ => never _, fun _ _ made => absurd made List.not_mem_nil⟩

variable [Zero R] {a b : TorchTensor R} (cpuA : a.CpuFloat32) (cpuB : b.CpuFloat32)
  (differ : k ≠ l) (frames : Nat) (backendChoice : Option Int)

include cpuA cpuB differ

theorem matmulRows_settled (left : a.shape = lead ++ [m, k]) (right : b.shape = [l, n])
    (several : lead ≠ []) :
    Settled settings a.shape b.shape
      (matmulRows (nested settings backends (frames + 2) backendChoice) a b) := by
  have reaches (holds) : Reaches holds a.shape b.shape ↔
      0 < k ∧ holds (lead ++ [m]).prod k l n := by
    simp [Reaches, left, right, lastTwo, leading, several]
  rcases Nat.eq_zero_or_pos k with rfl | present
  · rw [matmulRows_empty left]
    exact settled_raised fun holds reached =>
      absurd ((reaches holds).mp reached).1 (Nat.lt_irrefl 0)
  · obtain ⟨f, shapeF, _, flattened⟩ := matmulRows_flattened
      (nested settings backends (frames + 2) backendChoice) left right present
    rw [flattened]
    apply Handled.settled _ fun holds => (reaches holds).trans (and_iff_right present)
    exact (matrices_handled (cpuA.holding f) cpuB shapeF right differ frames _).bind fun _ => rfl

theorem matmulSlices_settled (left : a.shape = lead ++ [m, k]) (right : b.shape = leadB ++ [l, n])
    (several : leadB ≠ []) :
    Settled settings a.shape b.shape
      (matmulSlices (nested settings backends (frames + 2) backendChoice) a b) := by
  cases common : broadcastShapes lead leadB with
  | none =>
      have apart : matmulSlices (nested settings backends (frames + 2) backendChoice) a b =
          .raised := by
        simp only [matmulSlices, left, right, leading_append, common]
        rfl
      rw [apart]
      exact settled_raised fun holds => by
        simp [Reaches, left, right, lastTwo, leading_append, several, common]
  | some batch =>
      have reaches (holds) : Reaches holds a.shape b.shape ↔
          0 < batch.prod ∧ 0 < m * k ∧ 0 < l * n ∧ holds m k l n := by
        simp [Reaches, left, right, lastTwo_append, leading_append, several, common]
      by_cases elements : 0 < m * k ∧ 0 < l * n
      · obtain ⟨step, unfolded, slices⟩ := matmulSlices_each
          (nested settings backends (frames + 2) backendChoice) left right common
          elements.1 elements.2
        rw [unfolded]
        rcases Nat.eq_zero_or_pos batch.prod with empty | present
        · rw [empty]
          exact settled_raised fun holds reached => ((reaches holds).mp reached).1.ne' empty
        · have sliced : ∀ i < batch.prod, Handled settings m k l n (step i) := by
            intro i below
            obtain ⟨aSlice, bSlice, sliceA, sliceB, same⟩ := slices i below
            rw [same]
            exact matrices_handled (cpuA.holding aSlice) (cpuB.holding bSlice) sliceA.shape
              sliceB.shape differ frames _
          refine Handled.settled ((Handled.each present sliced).bind fun _ =>
            Traced.calls_lift_lift) fun holds => (reaches holds).trans ?_
          simp only [present, elements.1, elements.2, true_and]
      · have empty : m * k = 0 ∨ l * n = 0 := by omega
        rw [matmulSlices_empty left right empty]
        exact settled_raised fun holds reached =>
          elements ⟨((reaches holds).mp reached).2.1, ((reaches holds).mp reached).2.2.1⟩

theorem patchRowVector_settled (left : a.shape = [k]) (right : b.shape = [l, n]) :
    Settled settings a.shape b.shape
      (matmulPatch settings backends (frames + 3) a b none backendChoice) := by
  rw [matmulPatch_rowVector cpuA cpuB _ _ (by simp [left]) (by simp [right])]
  apply Handled.settled ((matrices_handled (cpuA.holding _) cpuB (shape_unsqueeze_row left) right
    differ frames _).bind fun _ => rfl)
  intro holds
  simp [Reaches, left, right, lastTwo, leading]

theorem patchColumnVector_settled (original : backends.matmulOriginal a b none = none)
    (left : a.shape = [m, k]) (right : b.shape = [l]) :
    Settled settings a.shape b.shape
      (matmulPatch settings backends (frames + 3) a b none backendChoice) := by
  rw [matmulPatch_column cpuA cpuB _ _ left right, original]
  apply Handled.settled ((matrices_handled cpuA (cpuB.holding _) left
    (shape_unsqueeze_column right) differ frames _).bind fun _ => rfl)
  intro holds
  simp [Reaches, left, right, lastTwo, leading]

theorem patchMatrices_settled (left : a.shape = [m, k]) (right : b.shape = [l, n]) :
    Settled settings a.shape b.shape
      (matmulPatch settings backends (frames + 3) a b none backendChoice) := by
  apply Handled.settled (matrices_handled cpuA cpuB left right differ (frames + 1) _)
  intro holds
  simp [Reaches, left, right, lastTwo, leading]

theorem patchRows_settled (left : a.shape = lead ++ [m, k]) (right : b.shape = [l, n])
    (several : lead ≠ []) :
    Settled settings a.shape b.shape
      (matmulPatch settings backends (frames + 3) a b none backendChoice) := by
  have rank : 2 < a.shape.length := left ▸ rank_of_several several
  rw [matmulPatch_rows cpuA cpuB _ _ rank (by simp [right])]
  exact matmulRows_settled cpuA cpuB differ frames _ left right several

theorem patchSlices_settled (original : backends.matmulOriginal a b none = none)
    (left : a.shape = lead ++ [m, k]) (right : b.shape = leadB ++ [l, n]) (several : leadB ≠ []) :
    Settled settings a.shape b.shape
      (matmulPatch settings backends (frames + 3) a b none backendChoice) := by
  have rank : 2 < b.shape.length := right ▸ rank_of_several several
  rw [matmulPatch_slices cpuA cpuB _ _ (by omega) (by omega), original, Traced.lift_none,
    Traced.attempt_by_raised]
  exact matmulSlices_settled cpuA cpuB differ frames _ left right several

end Settled

-- Inner dimensions that differ are rejected exactly when the shapes do not come to two matrices
-- with all sizes multiples of 4 or a single row on the right; and the kernels are given matrices
-- that multiply exactly when they do not come to the former.
theorem mismatch_rejected_iff [Zero R] {settings : Settings} {backends : Backends R}
    (raises : ∀ a b out, innerLeft a.shape ≠ innerRight b.shape →
      backends.matmulOriginal a b out = none)
    {a b : TorchTensor R} (cpuA : a.CpuFloat32) (cpuB : b.CpuFloat32) {k l : Nat}
    (left : innerLeft a.shape = some k) (right : innerRight b.shape = some l) (differ : k ≠ l)
    (frames : Nat) (backendChoice : Option Int) :
    (Rejected (matmulPatch settings backends (frames + 3) a b none backendChoice) ↔
      ¬ Reaches settings.Computes a.shape b.shape) ∧
    ((∀ call ∈ (matmulPatch settings backends (frames + 3) a b none backendChoice).calls,
        call.Matched) ↔ ¬ Reaches settings.ReadsBeyond a.shape b.shape) := by
  suffices settled : Settled settings a.shape b.shape
      (matmulPatch settings backends (frames + 3) a b none backendChoice) from
    ⟨settled.rejected, settled.matched⟩
  have original : backends.matmulOriginal a b none = none := by
    apply raises
    simp [left, right, differ]
  have ranks := ranks_of (innerLeft_nonempty left) (innerRight_nonempty right)
  generalize shapeA : a.shape = shape at ranks left
  generalize shapeB : b.shape = other at ranks right
  rw [← shapeA, ← shapeB]
  cases ranks with
  | rowVector k l n =>
      cases left
      cases right
      exact patchRowVector_settled cpuA cpuB differ frames backendChoice shapeA shapeB
  | columnVector m k l =>
      cases left
      cases right
      exact patchColumnVector_settled cpuA cpuB differ frames backendChoice original shapeA shapeB
  | matrices m k l n =>
      cases left
      cases right
      exact patchMatrices_settled cpuA cpuB differ frames backendChoice shapeA shapeB
  | rows several m k l n =>
      rw [innerLeft_append] at left
      cases left
      cases right
      exact patchRows_settled cpuA cpuB differ frames backendChoice shapeA shapeB several
  | slices lead several m k l n =>
      rw [innerLeft_append] at left
      rw [innerRight_append] at right
      cases left
      cases right
      exact patchSlices_settled cpuA cpuB differ frames backendChoice original shapeA shapeB several
  | vectors k l =>
      rw [matmulPatch_vector cpuA cpuB _ _ (by simp [shapeA]) (by simp [shapeB])
        (by simp [shapeA]), original]
      apply settled_raised
      simp [Reaches, shapeA, shapeB, lastTwo]
  | vectorSlices k several l n =>
      rw [matmulPatch_vector cpuA cpuB _ _ (by simp [shapeA]) (by simp [shapeB, several])
        (by simp [shapeA]), original]
      apply settled_raised
      simp [Reaches, shapeA, shapeB, lastTwo, leading, several]
  | slicesVector several m k l =>
      rw [matmulPatch_vector cpuA cpuB _ _ (by simp [shapeB]) (by simp [shapeB])
        (by simp [shapeA, several]), original]
      apply settled_raised
      simp [Reaches, shapeA, shapeB, lastTwo, leading, several]

section Sample

theorem multiplyingBackends_raises (a b : TorchTensor Int) (out : Option (NdArray Int))
    (differ : innerLeft a.shape ≠ innerRight b.shape) :
    multiplyingBackends.matmulOriginal a b out = none :=
  multiply_none differ

theorem mismatch_rejected :
    Rejected (matmulPatch plainSettings multiplyingBackends 3 (tensorOf [2, 3]) (tensorOf [8, 4])
      none none) :=
  (mismatch_rejected_iff multiplyingBackends_raises ⟨rfl, rfl⟩ ⟨rfl, rfl⟩ rfl rfl (by decide) 0
    none).1.mpr (by simp [Reaches, tensorOf, lastTwo, leading, Settings.Computes, aligned_iff])

-- The 4 x 4 matrix is multiplied by the first 4 rows of the other, and the one row of the last is
-- repeated for each of the 3 columns of the 2 x 3 matrix.
theorem mismatch_computed :
    (∃ call, (matmulPatch plainSettings multiplyingBackends 3 (tensorOf [4, 4]) (tensorOf [8, 4])
      none none).calls = [call] ∧ call.a.shape = [4, 4] ∧ call.b.shape = [8, 4] ∧
        ¬ call.Matched) ∧
    ∃ call, (matmulPatch plainSettings multiplyingBackends 3 (tensorOf [2, 3]) (tensorOf [1, 2])
      none none).calls = [call] := by
  refine ⟨⟨_, rfl, rfl, rfl, ?_⟩, ⟨_, rfl⟩⟩
  simp [ExtensionCall.Matched, tensorOf]

end Sample

end NpuMatmul
