import Mathlib.Data.List.Flatten
import Mathlib.Data.List.Nodup
import Mathlib.Data.List.Perm.Basic
import Mathlib.Data.List.Range

set_option autoImplicit false

-- What two nested loops do, one after the other.
namespace LoopNest

variable {α β : Type}

def loop (n : Nat) (body : Nat → List α) : List α := (List.range n).flatMap body

def nest (n m : Nat) (body : Nat → Nat → List α) : List α := loop n fun i => loop m (body i)

variable {n m : Nat} {body other : Nat → Nat → List α} {a : α}

theorem mem_loop {n : Nat} {body : Nat → List α} : a ∈ loop n body ↔ ∃ i < n, a ∈ body i := by
  simp [loop, List.mem_flatMap]

theorem mem_nest : a ∈ nest n m body ↔ ∃ i < n, ∃ j < m, a ∈ body i j := by
  simp [nest, mem_loop]

theorem loop_map (n : Nat) (f : Nat → α) : (loop n fun i => [f i]) = (List.range n).map f :=
  List.map_eq_flatMap.symm

theorem filterMap_nest (f : α → Option β) :
    (nest n m body).filterMap f = nest n m fun i j => (body i j).filterMap f := by
  simp [nest, loop, List.filterMap_flatMap]

theorem filterMap_loop {n : Nat} {body : Nat → List α} (f : α → Option β) :
    (loop n body).filterMap f = loop n fun i => (body i).filterMap f := by
  simp [loop, List.filterMap_flatMap]

theorem loop_groups (size n : Nat) (f : Nat → α) :
    (loop n fun group => loop size fun j => [f (size * group + j)]) =
      (List.range (size * n)).map f := by
  induction n with
  | zero => rfl
  | succ n ih =>
      rw [Nat.mul_succ, List.range_add, List.map_append, ← ih]
      simp [loop, List.range_succ, ← List.map_eq_flatMap, Function.comp_def]

theorem loop_rest (n rest : Nat) (f : Nat → α) :
    (List.range n).map f ++ (loop rest fun i => [f (n + i)]) = (List.range (n + rest)).map f := by
  rw [loop_map, List.range_add, List.map_append, List.map_map]
  rfl

theorem nest_congr (same : ∀ i < n, ∀ j < m, body i j = other i j) :
    nest n m body = nest n m other := by
  refine List.flatMap_congr fun i below => ?_
  refine List.flatMap_congr fun j inside => ?_
  exact same i (List.mem_range.mp below) j (List.mem_range.mp inside)

theorem nest_append (n m : Nat) (body other : Nat → Nat → List α) :
    (nest n m fun i j => body i j ++ other i j).Perm (nest n m body ++ nest n m other) := by
  have rows : (nest n m fun i j => body i j ++ other i j).Perm
      (loop n fun i => loop m (body i) ++ loop m (other i)) :=
    List.Perm.flatMap_left _ fun i _ => (List.flatMap_append_perm _ (body i) (other i)).symm
  exact rows.trans (List.flatMap_append_perm _ _ _).symm

section Places

variable {count : Nat → Nat} {place : Nat → Nat → Nat → Nat} {total : Nat}

-- Rounds that go through places of their own, and together through all of them.
structure Enumerates (n m : Nat) (count : Nat → Nat) (place : Nat → Nat → Nat → Nat)
    (total : Nat) : Prop where
  below : ∀ i < n, ∀ j < m, ∀ k < count j, place i j k < total
  apart : ∀ i < n, ∀ j < m, ∀ k < count j, ∀ i' < n, ∀ j' < m, ∀ k' < count j',
    place i j k = place i' j' k' → i = i' ∧ j = j' ∧ k = k'
  covers : ∀ e < total, ∃ i < n, ∃ j < m, ∃ k < count j, place i j k = e

theorem Enumerates.nodup (enumerates : Enumerates n m count place total) :
    (nest n m fun i j => (List.range (count j)).map (place i j)).Nodup := by
  refine List.nodup_flatMap.mpr ⟨fun i row => List.nodup_flatMap.mpr ⟨fun j column => ?_, ?_⟩, ?_⟩
  · refine List.Nodup.map_on (fun k inside k' inside' same => ?_) List.nodup_range
    exact (enumerates.apart i (List.mem_range.mp row) j (List.mem_range.mp column) k
      (List.mem_range.mp inside) i (List.mem_range.mp row) j (List.mem_range.mp column) k'
      (List.mem_range.mp inside') same).2.2
  · refine List.Nodup.pairwise_of_forall_ne List.nodup_range fun j column j' column' other => ?_
    refine List.disjoint_left.mpr fun e member member' => ?_
    obtain ⟨k, inside, rfl⟩ := List.mem_map.mp member
    obtain ⟨k', inside', same⟩ := List.mem_map.mp member'
    exact other (enumerates.apart i (List.mem_range.mp row) j (List.mem_range.mp column) k
      (List.mem_range.mp inside) i (List.mem_range.mp row) j' (List.mem_range.mp column') k'
      (List.mem_range.mp inside') same.symm).2.1
  · refine List.Nodup.pairwise_of_forall_ne List.nodup_range fun i row i' row' other => ?_
    refine List.disjoint_left.mpr fun e member member' => ?_
    obtain ⟨j, column, member⟩ := mem_loop.mp member
    obtain ⟨j', column', member'⟩ := mem_loop.mp member'
    obtain ⟨k, inside, rfl⟩ := List.mem_map.mp member
    obtain ⟨k', inside', same⟩ := List.mem_map.mp member'
    exact other (enumerates.apart i (List.mem_range.mp row) j column k (List.mem_range.mp inside) i'
      (List.mem_range.mp row') j' column' k' (List.mem_range.mp inside') same.symm).1

theorem Enumerates.perm (enumerates : Enumerates n m count place total) :
    (nest n m fun i j => (List.range (count j)).map (place i j)).Perm (List.range total) := by
  refine (List.perm_ext_iff_of_nodup enumerates.nodup List.nodup_range).mpr fun e => ?_
  rw [mem_nest, List.mem_range]
  constructor
  · rintro ⟨i, row, j, column, member⟩
    obtain ⟨k, inside, rfl⟩ := List.mem_map.mp member
    exact enumerates.below i row j column k (List.mem_range.mp inside)
  · intro below
    obtain ⟨i, row, j, column, k, inside, rfl⟩ := enumerates.covers e below
    exact ⟨i, row, j, column, List.mem_map.mpr ⟨k, List.mem_range.mpr inside, rfl⟩⟩

end Places

end LoopNest
