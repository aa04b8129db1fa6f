import Mathlib.Data.List.Forall2
import NpuMatmul.Shared.Traced

set_option autoImplicit false

-- Two computations that make the same calls, for someone who does not see all of a call.
namespace Traced

variable {κ κ' α α' β β' : Type}

structure Alike (S : κ → κ' → Prop) (P : α → α' → Prop) (t : Traced κ α) (u : Traced κ' α') :
    Prop where
  calls : List.Forall₂ S t.calls u.calls
  result : Option.Rel P t.result u.result

theorem exists_related {S : κ → κ' → Prop} {calls : List κ} {calls' : List κ'} {call : κ}
    (same : List.Forall₂ S calls calls') (made : call ∈ calls) :
    ∃ call' ∈ calls', S call call' := by
  induction same with
  | nil => cases made
  | @cons first first' _ _ related _ ih =>
      obtain rfl | later := List.mem_cons.mp made
      · exact ⟨first', List.mem_cons_self, related⟩
      · obtain ⟨call', among, holds⟩ := ih later
        exact ⟨call', List.mem_cons_of_mem first' among, holds⟩

section Rules

variable {S : κ → κ' → Prop} {P : α → α' → Prop} {Q : β → β' → Prop} {t handler : Traced κ α}
  {u handler' : Traced κ' α'} {next : α → Traced κ β} {next' : α' → Traced κ' β'}

theorem Alike.pure {value : α} {value' : α'} (related : P value value') :
    Alike S P (pure value) (pure value') :=
  ⟨.nil, .some related⟩

theorem Alike.raised : Alike S P .raised .raised := ⟨.nil, .none⟩

theorem Alike.lift {found : Option α} {found' : Option α'} (related : Option.Rel P found found') :
    Alike S P (.lift found) (.lift found') :=
  ⟨.nil, related⟩

theorem Alike.called {call : κ} {call' : κ'} {found : Option α} {found' : Option α'}
    (same : S call call') (related : Option.Rel P found found') :
    Alike S P (.called call found) (.called call' found') :=
  ⟨.cons same .nil, related⟩

theorem Alike.bind (first : Alike S P t u)
    (second : ∀ value value', P value value' → Alike S Q (next value) (next' value')) :
    Alike S Q (t >>= next) (u >>= next') := by
  obtain ⟨calls, result⟩ := first
  cases t with
  | mk calls₁ result₁ =>
      cases u with
      | mk calls₂ result₂ =>
          cases result with
          | none => exact ⟨calls, .none⟩
          | some related =>
              obtain ⟨later, last⟩ := second _ _ related
              exact ⟨List.rel_append calls later, last⟩

theorem Alike.attempt (first : Alike S P t u) (second : Alike S P handler handler') :
    Alike S P (t.attempt handler) (u.attempt handler') := by
  obtain ⟨calls, result⟩ := first
  cases t with
  | mk calls₁ result₁ =>
      cases u with
      | mk calls₂ result₂ =>
          cases result with
          | some related => exact ⟨calls, .some related⟩
          | none => exact ⟨List.rel_append calls second.calls, second.result⟩

theorem Alike.each {n : Nat} {step : Nat → Traced κ α} {step' : Nat → Traced κ' α'}
    (turn : ∀ i < n, Alike S P (step i) (step' i)) :
    Alike S (List.Forall₂ P) (each step n) (each step' n) := by
  induction n with
  | zero => exact .pure .nil
  | succ n ih =>
      apply (ih fun i below => turn i (Nat.lt_succ_of_lt below)).bind
      intro earlier earlier' before
      apply (turn n n.lt_succ_self).bind
      intro last last' related
      exact .pure (List.rel_append before (.cons related .nil))

theorem Alike.foldlM {ι ι' : Type} {related : ι → ι' → Prop} {step : α → ι → Traced κ α}
    {step' : α' → ι' → Traced κ' α'}
    (turn : ∀ value value' entry entry', P value value' → related entry entry' →
      Alike S P (step value entry) (step' value' entry'))
    {entries : List ι} {entries' : List ι'} (same : List.Forall₂ related entries entries')
    {value : α} {value' : α'} (start : P value value') :
    Alike S P (entries.foldlM step value) (entries'.foldlM step' value') := by
  induction same generalizing value value' with
  | nil => exact .pure start
  | cons first _ ih =>
      apply (turn _ _ _ _ start first).bind
      intro next next' related
      exact ih related

end Rules

end Traced
