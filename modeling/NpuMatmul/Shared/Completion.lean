import Mathlib.Control.Basic

set_option autoImplicit false

-- Computations on a state that return a value or nothing.
namespace Completion

variable {σ α β : Type}

def Completes (m : StateT σ Option α) (s : σ) (post : α → σ → Prop) : Prop :=
  ∃ value next, m s = some (value, next) ∧ post value next

variable {m : StateT σ Option α} {next : α → StateT σ Option β} {s t : σ} {value : α}
  {P Q : α → σ → Prop} {R : β → σ → Prop}

theorem Completes.pure (holds : P value s) : Completes (pure value : StateT σ Option α) s P :=
  ⟨value, s, rfl, holds⟩

theorem Completes.bind (first : Completes m s P)
    (rest : ∀ value t, P value t → Completes (next value) t R) : Completes (m >>= next) s R := by
  obtain ⟨value, t, returned, holds⟩ := first
  obtain ⟨last, u, ended, wanted⟩ := rest value t holds
  refine ⟨last, u, ?_, wanted⟩
  simp [Bind.bind, StateT.bind, returned, ended]

theorem Completes.mono (first : Completes m s P) (weaker : ∀ value t, P value t → Q value t) :
    Completes m s Q := by
  obtain ⟨value, t, returned, holds⟩ := first
  exact ⟨value, t, returned, weaker value t holds⟩

theorem Completes.returned (first : Completes m s P) (returns : m s = some (value, t)) : P value t := by
  obtain ⟨other, u, returned, holds⟩ := first
  rw [returned] at returns
  cases returns
  exact holds

theorem bind_none (fails : m s = none) : (m >>= next) s = none := by
  simp [Bind.bind, StateT.bind, fails]

theorem bind_fails (first : Completes m s P) (rest : ∀ value t, P value t → next value t = none) :
    (m >>= next) s = none := by
  obtain ⟨value, t, returned, holds⟩ := first
  simp [Bind.bind, StateT.bind, returned, rest value t holds]

end Completion
