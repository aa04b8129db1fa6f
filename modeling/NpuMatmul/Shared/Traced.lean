import Mathlib.Data.List.Basic

set_option autoImplicit false

-- A computation that makes calls, in order, and returns a value or raises an exception.
structure Traced (κ α : Type) where
  calls : List κ
  result : Option α

namespace Traced

variable {κ α β : Type}

def returned (value : α) : Traced κ α := { calls := [], result := some value }

def raised : Traced κ α := { calls := [], result := none }

def called (call : κ) (result : Option α) : Traced κ α := { calls := [call], result := result }

def lift (result : Option α) : Traced κ α := { calls := [], result := result }

def chain (t : Traced κ α) (next : α → Traced κ β) : Traced κ β :=
  match t.result with
  | some value => { calls := t.calls ++ (next value).calls, result := (next value).result }
  | none => { calls := t.calls, result := none }

instance : Monad (Traced κ) where
  pure := returned
  bind := chain

-- try: t, except Exception: handler
def attempt (t handler : Traced κ α) : Traced κ α :=
  match t.result with
  | some _ => t
  | none => { calls := t.calls ++ handler.calls, result := handler.result }

-- The results of step 0, ..., step (n - 1), in order.
def each (step : Nat → Traced κ α) : Nat → Traced κ (List α)
  | 0 => pure []
  | n + 1 => do
      let earlier ← each step n
      let last ← step n
      pure (earlier ++ [last])

def Returns (t : Traced κ α) (P : α → Prop) : Prop := ∃ value, t.result = some value ∧ P value

section Rules

variable {t handler : Traced κ α} {next : α → Traced κ β} {P Q : α → Prop} {value : α} {call : κ}

@[simp] theorem lift_some : (lift (some value) : Traced κ α) = pure value := rfl

@[simp] theorem lift_none : (lift none : Traced κ α) = raised := rfl

@[simp] theorem pure_bind : ((pure value : Traced κ α) >>= next) = next value := rfl

@[simp] theorem raised_bind : ((raised : Traced κ α) >>= next) = raised := rfl

@[simp] theorem bind_pure : (t >>= pure) = t := by
  cases t with
  | mk calls result => cases result <;> simp [Bind.bind, Pure.pure, chain, returned]

theorem lift_bind_raised {found : Option α} (raises : ∀ value, found = some value →
    next value = raised) : ((lift found : Traced κ α) >>= next) = raised := by
  cases found with
  | none => rfl
  | some value => exact raises value rfl

theorem calls_lift_lift {found : Option α} {rest : α → Option β} :
    ((lift found : Traced κ α) >>= fun value => lift (rest value)).calls = [] := by
  cases found <;> rfl

@[simp] theorem attempt_raised : attempt raised handler = handler := rfl

theorem Returns.pure (holds : P value) : (pure value : Traced κ α).Returns P :=
  ⟨value, rfl, holds⟩

theorem Returns.lift {found : Option α} (returns : ∃ value, found = some value ∧ P value) :
    (lift found : Traced κ α).Returns P := returns

theorem Returns.mono (returns : t.Returns P) (weaker : ∀ value, P value → Q value) :
    t.Returns Q := by
  obtain ⟨value, result, holds⟩ := returns
  exact ⟨value, result, weaker value holds⟩

theorem Returns.bind {R : β → Prop} (first : t.Returns P)
    (second : ∀ value, P value → (next value).Returns R) : (t >>= next).Returns R := by
  obtain ⟨value, result, holds⟩ := first
  obtain ⟨last, lastResult, wanted⟩ := second value holds
  refine ⟨last, ?_, wanted⟩
  simp [Bind.bind, chain, result, lastResult]

theorem isSome_of_bind (returns : (t >>= next).result.isSome) : t.result.isSome := by
  cases t with
  | mk calls result =>
      cases result with
      | none => cases returns
      | some value => rfl

theorem Returns.attempt (returns : t.Returns P) : (t.attempt handler).Returns P := by
  obtain ⟨value, result, holds⟩ := returns
  exact ⟨value, by simp [Traced.attempt, result], holds⟩

theorem mem_calls_bind (made : call ∈ t.calls) : call ∈ (t >>= next).calls := by
  cases result : t.result <;> simp [Bind.bind, chain, result, made]

@[simp] theorem attempt_by_raised : t.attempt raised = t := by
  cases t with
  | mk calls result => cases result <;> simp [attempt, raised]

theorem calls_bind (silent : ∀ value, (next value).calls = []) :
    (t >>= next).calls = t.calls := by
  cases t with
  | mk calls result => cases result <;> simp [Bind.bind, chain, silent]

theorem forall_calls_bind {P : κ → Prop} (first : ∀ call ∈ t.calls, P call)
    (second : ∀ value, ∀ call ∈ (next value).calls, P call) :
    ∀ call ∈ (t >>= next).calls, P call := by
  cases t with
  | mk calls result =>
      cases result with
      | none => exact first
      | some value => exact List.forall_mem_append.mpr ⟨first, second value⟩

theorem forall_calls_bind_iff {P : κ → Prop} :
    (∀ call ∈ (t >>= next).calls, P call) ↔
      (∀ call ∈ t.calls, P call) ∧
        ∀ value, t.result = some value → ∀ call ∈ (next value).calls, P call := by
  cases t with
  | mk calls result =>
      cases result with
      | none => simp [Bind.bind, chain]
      | some value => simp [Bind.bind, chain, or_imp, forall_and]

end Rules

section Each

variable {step : Nat → Traced κ α} {n : Nat} {P : Nat → α → Prop} {call : κ}

theorem each_returns (returns : ∀ i < n, (step i).Returns (P i)) :
    (each step n).Returns fun values =>
      values.length = n ∧ ∀ i < n, ∃ value, values[i]? = some value ∧ P i value := by
  induction n with
  | zero => exact .pure ⟨rfl, fun i below => absurd below (Nat.not_lt_zero i)⟩
  | succ n ih =>
      apply (ih fun i below => returns i (Nat.lt_succ_of_lt below)).bind
      rintro earlier ⟨length, holds⟩
      apply (returns n n.lt_succ_self).bind
      intro last lastHolds
      refine .pure ⟨by simp [length], fun i below => ?_⟩
      rcases Nat.lt_succ_iff_lt_or_eq.mp below with before | rfl
      · obtain ⟨value, found, wanted⟩ := holds i before
        exact ⟨value, by rw [List.getElem?_append_left (length ▸ before), found], wanted⟩
      · exact ⟨last, by simp [← length], lastHolds⟩

theorem each_raised (raises : step 0 = raised) : each step (n + 1) = raised := by
  induction n with
  | zero => simp [each, raises]
  | succ n ih => rw [each, ih, raised_bind]

theorem mem_calls_each (made : call ∈ (step 0).calls) : call ∈ (each step (n + 1)).calls := by
  induction n with
  | zero =>
      simp only [each, pure_bind]
      exact mem_calls_bind made
  | succ n ih => exact mem_calls_bind ih

theorem forall_calls_each {P : κ → Prop} (holds : ∀ i < n, ∀ call ∈ (step i).calls, P call) :
    ∀ call ∈ (each step n).calls, P call := by
  induction n with
  | zero => exact fun _ made => absurd made List.not_mem_nil
  | succ n ih =>
      apply forall_calls_bind (ih fun i below => holds i (Nat.lt_succ_of_lt below))
      intro earlier
      apply forall_calls_bind (holds n n.lt_succ_self)
      exact fun _ _ made => absurd made List.not_mem_nil

end Each

end Traced
