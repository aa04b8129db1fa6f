import Mathlib.Data.List.InsertIdx
import NpuMatmul.Shared.RowMajor

set_option autoImplicit false

-- An array of any rank. What entry says of an index outside the shape has no meaning.
structure NdArray (R : Type) where
  shape : List Nat
  entry : List Nat → R

namespace NdArray

open RowMajor

variable {R : Type}

-- shape[-i], shape[:-2] and shape[-2:]
def fromEnd (shape : List Nat) (i : Nat) : Option Nat :=
  if i ≤ shape.length then shape[shape.length - i]? else none

def leading (shape : List Nat) : List Nat := shape.take (shape.length - 2)

def lastTwo (shape : List Nat) : List Nat := shape.drop (shape.length - 2)

def zeros [Zero R] (shape : List Nat) : NdArray R := { shape := shape, entry := fun _ => 0 }

section Views

def unsqueeze (a : NdArray R) (axis : Nat) : NdArray R :=
  { shape := a.shape.insertIdx axis 1, entry := fun index => a.entry (index.eraseIdx axis) }

def squeeze (a : NdArray R) (axis : Nat) : NdArray R :=
  if a.shape[axis]? = some 1 then
    { shape := a.shape.eraseIdx axis, entry := fun index => a.entry (index.insertIdx axis 0) }
  else a

-- a[:sizes[0], :sizes[1], ...]
def crop (a : NdArray R) (sizes : List Nat) : NdArray R :=
  { shape := List.zipWith min sizes a.shape, entry := a.entry }

def select (a : NdArray R) (i : Nat) : Option (NdArray R) :=
  match a.shape with
  | [] => none
  | size :: shape =>
      if i < size then some { shape := shape, entry := fun index => a.entry (i :: index) }
      else none

def reshape (a : NdArray R) (shape : List Nat) : Option (NdArray R) :=
  if shape.prod = a.shape.prod then
    some { shape := shape, entry := fun index => a.entry (unravel a.shape (ravel shape index)) }
  else none

-- reshape(-1, *trailing): with no elements in trailing the -1 is ambiguous.
def reshapeRows (a : NdArray R) (trailing : List Nat) : Option (NdArray R) :=
  if trailing.prod = 0 then none else a.reshape (a.shape.prod / trailing.prod :: trailing)

end Views

section Broadcast

def broadcastSizes (size other : Nat) : Option Nat :=
  if size = other then some size
  else if size = 1 then some other
  else if other = 1 then some size
  else none

-- The shapes from their last dimension on; one that ends is continued by 1.
def broadcastReversed : List Nat → List Nat → Option (List Nat)
  | [], shape => some shape
  | shape, [] => some shape
  | size :: shape, other :: rest => do
      let common ← broadcastSizes size other
      let before ← broadcastReversed shape rest
      pure (common :: before)

def broadcastShapes (shape other : List Nat) : Option (List Nat) :=
  (broadcastReversed shape.reverse other.reverse).map List.reverse

def project (shape index : List Nat) : List Nat :=
  List.zipWith (fun size i => if size = 1 then 0 else i) shape
    (index.drop (index.length - shape.length))

def Expands (shape sizes : List Nat) : Prop :=
  shape.length ≤ sizes.length ∧
    List.Forall₂ (fun size other => size = other ∨ size = 1) shape
      (sizes.drop (sizes.length - shape.length))

instance (shape sizes : List Nat) : Decidable (Expands shape sizes) :=
  inferInstanceAs (Decidable (_ ∧ _))

instance (shape index : List Nat) : Decidable (Inside shape index) :=
  inferInstanceAs (Decidable (List.Forall₂ _ _ _))

def expand (a : NdArray R) (sizes : List Nat) : Option (NdArray R) :=
  if Expands a.shape sizes then
    some { shape := sizes, entry := fun index => a.entry (project a.shape index) }
  else none

-- a[:sizes[0], :sizes[1], ...] = value
def assign (a : NdArray R) (sizes : List Nat) (value : NdArray R) : Option (NdArray R) :=
  let slice := List.zipWith min sizes a.shape
  (value.expand slice).map fun value =>
    { a with
      entry := fun index => if Inside slice index then value.entry index else a.entry index }

def copy (a value : NdArray R) : Option (NdArray R) := value.expand a.shape

def stack : List (NdArray R) → Option (NdArray R)
  | [] => none
  | first :: rest =>
      if ∀ part ∈ rest, part.shape = first.shape then
        some
          { shape := (rest.length + 1) :: first.shape
            entry := fun index => ((first :: rest).getD (index.headD 0) first).entry index.tail }
      else none

end Broadcast

section Shapes

variable {shape lead other common index rest : List Nat} {size rows columns : Nat}

theorem leading_append : leading (lead ++ [rows, columns]) = lead := by simp [leading]

theorem lastTwo_append : lastTwo (lead ++ [rows, columns]) = [rows, columns] := by simp [lastTwo]

theorem fromEnd_one : fromEnd (lead ++ [rows, columns]) 1 = some columns := by simp [fromEnd]

theorem fromEnd_two : fromEnd (lead ++ [rows, columns]) 2 = some rows := by simp [fromEnd]

theorem rank_of_several (several : lead ≠ []) : 2 < (lead ++ [rows, columns]).length := by
  rw [List.length_append]
  exact Nat.add_lt_add_right (List.length_pos_of_ne_nil several) 2

theorem exists_lead (rank : 2 ≤ shape.length) :
    ∃ lead rows columns, shape = lead ++ [rows, columns] := by
  have two : (lastTwo shape).length = 2 := by
    rw [lastTwo, List.length_drop]
    omega
  obtain ⟨rows, columns, last⟩ := List.length_eq_two.mp two
  refine ⟨leading shape, rows, columns, ?_⟩
  rw [← last, leading, lastTwo, List.take_append_drop]

theorem project_inside (inside : Inside shape index) : project shape index = index := by
  rw [project, inside.length_eq, Nat.sub_self, List.drop_zero]
  induction inside with
  | nil => rfl
  | @cons size i shape index bound _ ih =>
      have first : (if size = 1 then 0 else i) = i := by
        split <;> omega
      rw [List.zipWith_cons_cons, first, ih]

theorem project_append (inside : Inside rest other) (ranks : shape.length ≤ index.length) :
    project (shape ++ rest) (index ++ other) = project shape index ++ other := by
  have lengths := inside.length_eq
  have dropped : (index ++ other).drop ((index ++ other).length - (shape ++ rest).length) =
      index.drop (index.length - shape.length) ++ other := by
    rw [List.length_append, List.length_append, lengths, Nat.add_sub_add_right,
      List.drop_append_of_le_length (Nat.sub_le _ _)]
  have last := project_inside inside
  rw [project, lengths, Nat.sub_self, List.drop_zero] at last
  rw [project, dropped, List.zipWith_append (by simp; omega), last, project]

end Shapes

section Common

variable {shape other common rest : List Nat} {size otherSize chosen : Nat}

theorem broadcastReversed_nil : broadcastReversed shape [] = some shape := by
  cases shape <;> rfl

@[simp] theorem broadcastShapes_nil : broadcastShapes shape [] = some shape := by
  simp [broadcastShapes, broadcastReversed_nil]

@[simp] theorem nil_broadcastShapes : broadcastShapes [] shape = some shape := by
  simp [broadcastShapes, broadcastReversed]

theorem broadcastSizes_comm : broadcastSizes size otherSize = broadcastSizes otherSize size := by
  unfold broadcastSizes
  split_ifs <;> simp_all

theorem broadcastReversed_comm :
    broadcastReversed shape other = broadcastReversed other shape := by
  fun_induction broadcastReversed shape other with
  | case1 shape => exact broadcastReversed_nil.symm
  | case2 shape => cases shape <;> rfl
  | case3 size shape other rest ih => rw [broadcastReversed, broadcastSizes_comm, ih]

theorem broadcastShapes_comm : broadcastShapes shape other = broadcastShapes other shape := by
  rw [broadcastShapes, broadcastReversed_comm, broadcastShapes]

theorem broadcastSizes_expands (found : broadcastSizes size otherSize = some chosen) :
    size = chosen ∨ size = 1 := by
  unfold broadcastSizes at found
  split_ifs at found <;> simp_all

theorem broadcastReversed_expands (found : broadcastReversed shape other = some common) :
    shape.length ≤ common.length ∧
      List.Forall₂ (fun size other => size = other ∨ size = 1) shape
        (common.take shape.length) := by
  fun_induction broadcastReversed shape other generalizing common with
  | case1 shape => simp
  | case2 shape =>
      cases found
      simp [List.forall₂_same]
  | case3 size shape other rest ih =>
      obtain ⟨chosen, sizes, found⟩ := Option.bind_eq_some_iff.mp found
      obtain ⟨before, earlier, whole⟩ := Option.bind_eq_some_iff.mp found
      cases whole
      obtain ⟨ranks, holds⟩ := ih earlier
      exact ⟨Nat.succ_le_succ ranks, .cons (broadcastSizes_expands sizes) holds⟩

theorem mem_broadcastReversed (found : broadcastReversed shape other = some common) :
    ∀ size ∈ common, size ∈ shape ∨ size ∈ other := by
  fun_induction broadcastReversed shape other generalizing common with
  | case1 shape => simp_all
  | case2 shape => simp_all
  | case3 size shape other rest ih =>
      obtain ⟨chosen, sizes, found⟩ := Option.bind_eq_some_iff.mp found
      obtain ⟨before, earlier, whole⟩ := Option.bind_eq_some_iff.mp found
      cases whole
      have own : chosen = size ∨ chosen = other := by
        unfold broadcastSizes at sizes
        split_ifs at sizes <;> simp_all
      intro last member
      rcases List.mem_cons.mp member with rfl | member
      · exact own.imp (fun same => by simp [same]) (fun same => by simp [same])
      · exact (ih earlier last member).imp (List.mem_cons_of_mem _) (List.mem_cons_of_mem _)

theorem mem_common (found : broadcastShapes shape other = some common) :
    ∀ size ∈ common, size ∈ shape ∨ size ∈ other := by
  obtain ⟨reversed, agreed, rfl⟩ := Option.map_eq_some_iff.mp found
  intro size member
  simpa using mem_broadcastReversed agreed size (List.mem_reverse.mp member)

theorem expands_common (found : broadcastShapes shape other = some common) :
    Expands shape common := by
  obtain ⟨reversed, agreed, rfl⟩ := Option.map_eq_some_iff.mp found
  obtain ⟨ranks, holds⟩ := broadcastReversed_expands agreed
  rw [List.length_reverse] at ranks holds
  refine ⟨by simpa using ranks, ?_⟩
  rw [← List.forall₂_reverse_iff, List.reverse_drop]
  simpa [Nat.sub_sub_self ranks] using holds

theorem Expands.append (expands : Expands shape common) (rest : List Nat) :
    Expands (shape ++ rest) (common ++ rest) := by
  obtain ⟨ranks, holds⟩ := expands
  refine ⟨by simpa using ranks, ?_⟩
  have dropped : (common ++ rest).drop ((common ++ rest).length - (shape ++ rest).length) =
      common.drop (common.length - shape.length) ++ rest := by
    rw [List.length_append, List.length_append, Nat.add_sub_add_right,
      List.drop_append_of_le_length (Nat.sub_le _ _)]
  rw [dropped]
  exact List.rel_append holds (by simp [List.forall₂_same])

theorem expands_refl (shape : List Nat) : Expands shape shape := by
  simp [Expands, List.forall₂_same]

end Common

section Entries

variable {a : NdArray R} {lead trailing shape : List Nat}

theorem reshapeRows_entry (shape : a.shape = lead ++ trailing) (elements : 0 < trailing.prod) :
    ∃ c, a.reshapeRows trailing = some c ∧ c.shape = lead.prod :: trailing ∧
      ∀ i rest, i < lead.prod → Inside trailing rest →
        c.entry (i :: rest) = a.entry (unravel lead i ++ rest) := by
  have whole : a.shape.prod / trailing.prod = lead.prod := by
    rw [shape, List.prod_append, Nat.mul_div_cancel _ elements]
  have same : (lead.prod :: trailing).prod = a.shape.prod := by
    rw [shape, List.prod_cons, List.prod_append]
  rw [reshapeRows, if_neg elements.ne', whole]
  refine ⟨_, if_pos same, rfl, ?_⟩
  intro i rest below inside
  have position := ravel_lt inside
  simp only [ravel, shape]
  rw [unravel_append below position, unravel_ravel inside]

theorem reshape_entry (shape : a.shape = lead.prod :: trailing) :
    ∃ c, a.reshape (lead ++ trailing) = some c ∧ c.shape = lead ++ trailing ∧
      ∀ index rest, Inside lead index → Inside trailing rest →
        c.entry (index ++ rest) = a.entry (ravel lead index :: rest) := by
  have same : (lead ++ trailing).prod = a.shape.prod := by
    rw [shape, List.prod_cons, List.prod_append]
  refine ⟨_, if_pos same, rfl, ?_⟩
  intro index rest insideLead insideRest
  have inside : Inside (lead.prod :: trailing) (ravel lead index :: rest) :=
    .cons (ravel_lt insideLead) insideRest
  have position : ravel (lead ++ trailing) (index ++ rest) =
      ravel (lead.prod :: trailing) (ravel lead index :: rest) := ravel_append insideLead
  simp only [position, shape, unravel_ravel inside]

theorem select_entry {size i : Nat} (whole : a.shape = size :: shape) (below : i < size) :
    ∃ c, a.select i = some c ∧ c.shape = shape ∧
      ∀ index, c.entry index = a.entry (i :: index) := by
  refine ⟨{ shape := shape, entry := fun index => a.entry (i :: index) }, ?_, rfl, fun _ => rfl⟩
  simp [select, whole, below]

theorem stack_entry {parts : List (NdArray R)} (present : parts ≠ [])
    (same : ∀ part ∈ parts, part.shape = shape) :
    ∃ c, stack parts = some c ∧ c.shape = parts.length :: shape ∧
      ∀ i index part, parts[i]? = some part → c.entry (i :: index) = part.entry index := by
  cases parts with
  | nil => exact absurd rfl present
  | cons first rest =>
      have shapes : ∀ part ∈ rest, part.shape = first.shape := by
        intro part member
        rw [same part (List.mem_cons_of_mem _ member), same first List.mem_cons_self]
      refine ⟨_, if_pos shapes, ?_, ?_⟩
      · rw [same first List.mem_cons_self, List.length_cons]
      · intro i index part found
        simp [List.getD, found]

theorem expand_entry {sizes : List Nat} (expands : Expands a.shape sizes) :
    ∃ c, a.expand sizes = some c ∧ c.shape = sizes ∧
      ∀ index, c.entry index = a.entry (project a.shape index) :=
  ⟨_, if_pos expands, rfl, fun _ => rfl⟩

theorem assign_shape {value : NdArray R} {sizes : List Nat}
    (expands : Expands value.shape (List.zipWith min sizes a.shape)) :
    ∃ c, a.assign sizes value = some c ∧ c.shape = a.shape := by
  obtain ⟨same, expanded, _⟩ := expand_entry expands
  simp [assign, expanded]

theorem assign_none {value : NdArray R} {sizes : List Nat}
    (apart : ¬ Expands value.shape (List.zipWith min sizes a.shape)) :
    a.assign sizes value = none := by
  simp [assign, expand, apart]

theorem assign_entry {value : NdArray R} {sizes : List Nat}
    (fills : List.zipWith min sizes a.shape = value.shape) :
    ∃ c, a.assign sizes value = some c ∧ c.shape = a.shape ∧
      ∀ index, c.entry index =
        if Inside value.shape index then value.entry index else a.entry index := by
  obtain ⟨same, expanded, shape, entry⟩ := expand_entry (expands_refl value.shape)
  have assigned : a.assign sizes value = some { a with
      entry := fun index =>
        if Inside value.shape index then same.entry index else a.entry index } := by
    simp only [assign, fills, expanded, Option.map_some]
  refine ⟨_, assigned, rfl, fun index => ?_⟩
  dsimp only
  split
  case isTrue inside => rw [entry, project_inside inside]
  case isFalse => rfl

end Entries

end NdArray
