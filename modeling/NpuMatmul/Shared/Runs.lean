import Mathlib.Logic.Relation

set_option autoImplicit false

namespace Runs

open Relation

theorem preserved {σ : Type} {step : σ → σ → Prop} {Inv : σ → Prop}
    (keeps : ∀ s s', Inv s → step s s' → Inv s') {s s' : σ}
    (run : ReflTransGen step s s') (start : Inv s) : Inv s' := by
  induction run with
  | refl => exact start
  | tail _ last ih => exact keeps _ _ ih last

section Labelled

variable {σ ℓ : Type} (step : σ → ℓ → Option σ)

-- The state after a list of requests, none once a step has no result.
def after : σ → List ℓ → Option σ
  | s, [] => some s
  | s, request :: rest => (step s request).bind fun next => after next rest

-- Every step of the run meets the condition, in the state it starts from.
def Along (P : σ → ℓ → Prop) : σ → List ℓ → Prop
  | _, [] => True
  | s, request :: rest => P s request ∧ ∀ next, step s request = some next → Along P next rest

def total (cost : σ → ℓ → Nat) : σ → List ℓ → Nat
  | _, [] => 0
  | s, request :: rest => cost s request + (step s request).elim 0 fun next => total cost next rest

variable {step} {P Q : σ → ℓ → Prop} {I : σ → Prop}

theorem after_append (s : σ) (requests later : List ℓ) :
    after step s (requests ++ later) = (after step s requests).bind fun next =>
      after step next later := by
  induction requests generalizing s with
  | nil => rfl
  | cons request rest ih =>
      simp only [List.cons_append, after, Option.bind_assoc, ih]

theorem along_true {s : σ} (requests : List ℓ) : Along step (fun _ _ => True) s requests := by
  induction requests generalizing s with
  | nil => trivial
  | cons request rest ih => exact ⟨trivial, fun _ _ => ih⟩

theorem along_all {P : ℓ → Prop} {s : σ} {requests : List ℓ}
    (all : ∀ request ∈ requests, P request) : Along step (fun _ => P) s requests := by
  induction requests generalizing s with
  | nil => trivial
  | cons request rest ih =>
      have later := fun other member => all other (List.mem_cons_of_mem request member)
      exact ⟨all request List.mem_cons_self, fun _ _ => ih later⟩

theorem after_invariant
    (keeps : ∀ s request next, I s → P s request → step s request = some next → I next)
    {s last : σ} {requests : List ℓ} (start : I s) (met : Along step P s requests)
    (reached : after step s requests = some last) : I last := by
  induction requests generalizing s with
  | nil =>
      cases reached
      exact start
  | cons request rest ih =>
      obtain ⟨here, later⟩ := met
      obtain ⟨next, moved, reached⟩ := Option.bind_eq_some_iff.mp reached
      exact ih (keeps s request next start here moved) (later next moved) reached

theorem after_kept (keeps : ∀ s request next, I s → step s request = some next → I next)
    {s last : σ} {requests : List ℓ} (start : I s) (reached : after step s requests = some last) :
    I last :=
  after_invariant (P := fun _ _ => True) (fun s request next kept _ => keeps s request next kept)
    start (along_true requests) reached

theorem along_mono
    (keeps : ∀ s request next, I s → P s request → step s request = some next → I next)
    (gives : ∀ s request, I s → P s request → Q s request) {s : σ} {requests : List ℓ}
    (start : I s) (met : Along step P s requests) : Along step Q s requests := by
  induction requests generalizing s with
  | nil => trivial
  | cons request rest ih =>
      obtain ⟨here, later⟩ := met
      refine ⟨gives s request start here, fun next moved => ?_⟩
      exact ih (keeps s request next start here moved) (later next moved)

theorem along_kept (keeps : ∀ s request next, I s → step s request = some next → I next)
    (gives : ∀ s request, I s → Q s request) {s : σ} (start : I s) (requests : List ℓ) :
    Along step Q s requests :=
  along_mono (P := fun _ _ => True) (fun s request next kept _ => keeps s request next kept)
    (fun s request kept _ => gives s request kept) start (along_true requests)

theorem along_iff
    (keeps : ∀ s request next, I s → P s request → step s request = some next → I next)
    (agree : ∀ s request, I s → (Q s request ↔ P s request)) {s : σ} (start : I s)
    (requests : List ℓ) : Along step Q s requests ↔ Along step P s requests := by
  constructor
  · apply along_mono _ (fun s request kept => (agree s request kept).mp) start
    exact fun s request next kept met => keeps s request next kept ((agree s request kept).mp met)
  · exact along_mono keeps (fun s request kept => (agree s request kept).mpr) start

theorem after_filter {R : σ → σ → Prop} {keep : ℓ → Bool}
    (keeps : ∀ s request next, I s → P s request → step s request = some next → I next)
    (stutters : ∀ s t request next, R s t → keep request = false →
      step s request = some next → R next t)
    (follows : ∀ s t request next, I s → P s request → R s t → keep request = true →
      step s request = some next → ∃ u, step t request = some u ∧ R next u)
    {s t last : σ} {requests : List ℓ} (start : I s) (related : R s t)
    (met : Along step P s requests) (reached : after step s requests = some last) :
    ∃ u, after step t (requests.filter keep) = some u ∧ R last u := by
  induction requests generalizing s t with
  | nil =>
      cases reached
      exact ⟨t, rfl, related⟩
  | cons request rest ih =>
      obtain ⟨here, later⟩ := met
      obtain ⟨next, moved, reached⟩ := Option.bind_eq_some_iff.mp reached
      have kept := keeps s request next start here moved
      cases kind : keep request with
      | false =>
          rw [List.filter_cons_of_neg (by simp [kind])]
          exact ih kept (stutters s t request next related kind moved) (later next moved) reached
      | true =>
          obtain ⟨middle, stepped, same⟩ := follows s t request next start here related kind moved
          obtain ⟨u, ran, final⟩ := ih kept same (later next moved) reached
          rw [List.filter_cons_of_pos kind]
          exact ⟨u, Option.bind_eq_some_iff.mpr ⟨middle, stepped, ran⟩, final⟩

end Labelled

end Runs
