import Mathlib.Data.List.Basic
import Mathlib.Logic.Function.Basic

set_option autoImplicit false

namespace TableWrites

def under {κ ν : Type} [DecidableEq κ] (entry : Option (κ × ν)) (wanted : κ) : Option ν :=
  entry.bind fun made => if made.1 = wanted then some made.2 else none

end TableWrites

-- A table in which the first entry made under a key stays.
namespace FirstWrites

open TableWrites

variable {κ ν ρ : Type} [DecidableEq κ]

def record (table : List (κ × ν)) (entry : Option (κ × ν)) : List (κ × ν) :=
  match entry with
  | none => table
  | some (key, value) =>
      match table.lookup key with
      | some _ => table
      | none => (key, value) :: table

theorem lookup_record (table : List (κ × ν)) (entry : Option (κ × ν)) (wanted : κ) :
    (record table entry).lookup wanted = (table.lookup wanted).or (under entry wanted) := by
  cases entry with
  | none => simp [record, under]
  | some made =>
      obtain ⟨key, value⟩ := made
      by_cases same : key = wanted
      · subst same
        cases found : table.lookup key <;> simp [record, under, found]
      · have apart : (wanted == key) = false := by simpa using Ne.symm same
        cases found : table.lookup key <;> simp [record, under, found, same, List.lookup_cons, apart]

theorem lookup_records (attempt : ρ → Option (κ × ν)) (table : List (κ × ν)) (requests : List ρ)
    (wanted : κ) :
    (requests.foldl (fun table request => record table (attempt request)) table).lookup wanted =
      (table.lookup wanted).or (requests.findSome? fun request => under (attempt request) wanted) := by
  induction requests generalizing table with
  | nil => simp
  | cons request rest ih =>
      rw [List.foldl_cons, ih, lookup_record, List.findSome?_cons]
      cases table.lookup wanted <;> cases under (attempt request) wanted <;> simp

end FirstWrites

-- A table in which the last entry made under a key stays.
namespace LastWrites

open TableWrites

variable {κ ν ρ : Type} [DecidableEq κ]

def record (table : κ → Option ν) (entry : Option (κ × ν)) : κ → Option ν :=
  match entry with
  | none => table
  | some (key, value) => Function.update table key (some value)

theorem record_lookup (table : κ → Option ν) (entry : Option (κ × ν)) (wanted : κ) :
    record table entry wanted = (under entry wanted).or (table wanted) := by
  cases entry with
  | none => simp [record, under]
  | some made =>
      obtain ⟨key, value⟩ := made
      by_cases same : key = wanted
      · simp [record, under, same]
      · simp [record, under, same, Ne.symm same]

theorem records_lookup (attempt : ρ → Option (κ × ν)) (table : κ → Option ν) (requests : List ρ)
    (wanted : κ) :
    requests.foldl (fun table request => record table (attempt request)) table wanted =
      (requests.reverse.findSome? fun request => under (attempt request) wanted).or
        (table wanted) := by
  induction requests generalizing table with
  | nil => simp
  | cons request rest ih =>
      rw [List.foldl_cons, ih, record_lookup, List.reverse_cons, List.findSome?_append]
      simp [Option.or_assoc]

end LastWrites
