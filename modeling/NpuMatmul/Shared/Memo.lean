import Mathlib.Data.Finset.Card
import Mathlib.Data.List.Basic

set_option autoImplicit false

-- A table that keeps, under each key, what the first request with that key had built.
namespace Memo

variable {κ ρ ν : Type} [DecidableEq κ] (key : ρ → κ) (build : ρ → ν)

def serve (table : List (κ × ν)) (request : ρ) : List (κ × ν) × ν :=
  match table.lookup (key request) with
  | some value => (table, value)
  | none => ((key request, build request) :: table, build request)

-- asked is oldest first.
def first (asked : List ρ) (wanted : κ) : Option ρ := asked.find? fun request => key request == wanted

def HoldsFirst (table : List (κ × ν)) (asked : List ρ) : Prop :=
  ∀ wanted, table.lookup wanted = (first key asked wanted).map build

variable {key build} {table : List (κ × ν)} {asked : List ρ} {request other : ρ} {wanted : κ}

theorem first_key (found : first key asked wanted = some other) : key other = wanted := by
  have same := List.find?_some found
  simpa using same

theorem first_append : first key (asked ++ [request]) wanted =
    (first key asked wanted).or (if key request = wanted then some request else none) := by
  unfold first
  rw [List.find?_append]
  by_cases same : key request = wanted <;> simp [same]

theorem holdsFirst_nil : HoldsFirst key build ([] : List (κ × ν)) [] := by
  intro wanted
  rfl

theorem HoldsFirst.serve (holds : HoldsFirst key build table asked) (request : ρ) :
    HoldsFirst key build (serve key build table request).1 (asked ++ [request]) := by
  intro wanted
  have own := holds (key request)
  rw [first_append, Option.map_or, ← holds wanted]
  unfold Memo.serve
  cases found : table.lookup (key request) with
  | some value =>
      by_cases same : key request = wanted
      · simp [← same, found]
      · simp [same]
  | none =>
      by_cases same : key request = wanted
      · simp [← same, found]
      · have apart : (wanted == key request) = false := by simpa using Ne.symm same
        simp [same, List.lookup_cons, apart]

section Keys

def keys (table : List (κ × ν)) : Finset κ := (table.map Prod.fst).toFinset

theorem keys_cons (entry : κ × ν) : keys (entry :: table) = insert entry.1 (keys table) := by
  simp [keys]

theorem mem_keys : wanted ∈ keys table ↔ (table.lookup wanted).isSome := by
  induction table with
  | nil => simp [keys]
  | cons entry rest ih =>
      obtain ⟨own, value⟩ := entry
      rw [keys_cons, Finset.mem_insert, ih, List.lookup_cons]
      by_cases same : wanted = own
      · simp [same]
      · have apart : (wanted == own) = false := by simpa using same
        simp [same, apart]

theorem card_misses (known first second : Finset κ) :
    ((first ∪ second) \ known).card =
      (first \ known).card + (second \ (known ∪ first)).card := by
  rw [← Finset.card_union_of_disjoint]
  · congr 1
    ext wanted
    simp only [Finset.mem_sdiff, Finset.mem_union]
    tauto
  · refine Finset.disjoint_left.mpr fun wanted left right => ?_
    simp only [Finset.mem_sdiff, Finset.mem_union] at left right
    tauto

end Keys

end Memo
