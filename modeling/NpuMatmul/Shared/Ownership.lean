import Mathlib.Data.List.Basic

set_option autoImplicit false

namespace Ownership

-- Traces of events, the newest first, that make and end resources.
structure Ledger (E R : Type) where
  makes : E → R → Prop
  ends : E → R → Prop
  apart : ∀ event resource, makes event resource → ¬ ends event resource

variable {E R : Type}

def Always (allowed : List E → E → Prop) : List E → Prop
  | [] => True
  | event :: past => allowed past event ∧ Always allowed past

theorem always_split {allowed : List E → E → Prop} {later past : List E} {event : E}
    (always : Always allowed (later ++ event :: past)) : allowed past event ∧ Always allowed past := by
  induction later with
  | nil => exact always
  | cons _ _ ih => exact ih always.2

variable (ledger : Ledger E R)

def Made (trace : List E) (resource : R) : Prop := ∃ event ∈ trace, ledger.makes event resource

def Ended (trace : List E) (resource : R) : Prop := ∃ event ∈ trace, ledger.ends event resource

def Held : List E → R → Prop
  | [], _ => False
  | event :: past, resource =>
      ledger.makes event resource ∨ (¬ ledger.ends event resource ∧ Held past resource)

def Fresh (past : List E) (event : E) : Prop :=
  ∀ resource, ledger.makes event resource →
    ¬ Made ledger past resource ∧ ¬ Ended ledger past resource

variable {ledger} {trace : List E} {resource : R}

theorem held_cons {event : E} : Held ledger (event :: trace) resource ↔
    ledger.makes event resource ∨ (¬ ledger.ends event resource ∧ Held ledger trace resource) :=
  Iff.rfl

theorem made_of_held (held : Held ledger trace resource) : Made ledger trace resource := by
  induction trace with
  | nil => exact held.elim
  | cons event past ih =>
      obtain made | ⟨_, earlier⟩ := held
      · exact ⟨event, List.mem_cons_self, made⟩
      · obtain ⟨maker, member, made⟩ := ih earlier
        exact ⟨maker, List.mem_cons_of_mem event member, made⟩

theorem not_ended_of_held (fresh : Always (Fresh ledger) trace) (held : Held ledger trace resource) :
    ¬ Ended ledger trace resource := by
  induction trace with
  | nil => exact held.elim
  | cons event past ih =>
      rintro ⟨ender, member, ended⟩
      obtain made | ⟨kept, earlier⟩ := held
      · obtain rfl | before := List.mem_cons.mp member
        · exact ledger.apart _ _ made ended
        · exact (fresh.1 resource made).2 ⟨ender, before, ended⟩
      · obtain rfl | before := List.mem_cons.mp member
        · exact kept ended
        · exact ih fresh.2 earlier ⟨ender, before, ended⟩

theorem held_append {later past : List E} (kept : ∀ event ∈ later, ¬ ledger.ends event resource)
    (held : Held ledger past resource) : Held ledger (later ++ past) resource := by
  induction later with
  | nil => exact held
  | cons event rest ih =>
      have own := kept event List.mem_cons_self
      have others := ih fun other member => kept other (List.mem_cons_of_mem event member)
      exact Or.inr ⟨own, others⟩

theorem always_append {allowed : List E → E → Prop} {later past : List E}
    (each : ∀ event ∈ later, ∀ before, allowed before event) (always : Always allowed past) :
    Always allowed (later ++ past) := by
  induction later with
  | nil => exact always
  | cons event rest ih =>
      have others := ih fun other member => each other (List.mem_cons_of_mem event member)
      exact ⟨each event List.mem_cons_self _, others⟩

theorem ended_of_not_held (made : Made ledger trace resource)
    (released : ¬ Held ledger trace resource) : Ended ledger trace resource := by
  induction trace with
  | nil =>
      obtain ⟨_, member, _⟩ := made
      cases member
  | cons event past ih =>
      by_cases now : ledger.ends event resource
      · exact ⟨event, List.mem_cons_self, now⟩
      · obtain ⟨maker, member, makes⟩ := made
        have before : Made ledger past resource := by
          obtain rfl | earlier := List.mem_cons.mp member
          · exact absurd (Or.inl makes) released
          · exact ⟨maker, earlier, makes⟩
        have gone : ¬ Held ledger past resource := fun held => released (Or.inr ⟨now, held⟩)
        obtain ⟨ender, earlier, ends⟩ := ih before gone
        exact ⟨ender, List.mem_cons_of_mem event earlier, ends⟩

section Account

variable (ledger) in
-- The books of an owner: only what is held is ended, what is made comes from the unseen resources,
-- nothing is held where an event closes the account, and what is held now is the owner's.
structure Account (closes : E → Prop) (trace : List E) (unseen owner : R → Prop) : Prop where
  safe : Always (fun past event => (∀ resource, ledger.ends event resource → Held ledger past resource) ∧
    Fresh ledger past event ∧ (closes event → ∀ resource, ¬ Held ledger past resource)) trace
  seen : ∀ resource, Made ledger trace resource → ¬ unseen resource
  held : ∀ resource, Held ledger trace resource ↔ owner resource

variable {closes : E → Prop} {unseen later owner : R → Prop} {event : E}

theorem Account.fresh (account : Account ledger closes trace unseen owner) :
    Always (Fresh ledger) trace := by
  have safe := account.safe
  clear account
  induction trace with
  | nil => trivial
  | cons event past ih => exact ⟨safe.1.2.1, ih safe.2⟩

theorem Account.made_of_ended (account : Account ledger closes trace unseen owner)
    (ended : Ended ledger trace resource) : Made ledger trace resource := by
  have safe := account.safe
  clear account
  induction trace with
  | nil =>
      obtain ⟨_, member, _⟩ := ended
      cases member
  | cons event past ih =>
      have before : Made ledger past resource := by
        obtain ⟨ender, member, ends⟩ := ended
        obtain rfl | earlier := List.mem_cons.mp member
        · exact made_of_held (safe.1.1 resource ends)
        · exact ih ⟨ender, earlier, ends⟩ safe.2
      obtain ⟨maker, member, makes⟩ := before
      exact ⟨maker, List.mem_cons_of_mem event member, makes⟩

theorem Account.empty (nothing : ∀ resource, ¬ owner resource) :
    Account ledger closes [] unseen owner := by
  refine ⟨trivial, ?_, fun resource => ⟨False.elim, nothing resource⟩⟩
  rintro resource ⟨_, member, _⟩
  cases member

theorem Account.congr (account : Account ledger closes trace unseen owner) {owner' : R → Prop}
    (fewer : ∀ resource, later resource → unseen resource)
    (same : ∀ resource, owner resource ↔ owner' resource) :
    Account ledger closes trace later owner' :=
  ⟨account.safe, fun resource made new => account.seen resource made (fewer resource new),
    fun resource => (account.held resource).trans (same resource)⟩

theorem Account.quiet (account : Account ledger closes trace unseen owner)
    (makes : ∀ resource, ¬ ledger.makes event resource)
    (ends : ∀ resource, ¬ ledger.ends event resource)
    (closed : closes event → ∀ resource, ¬ owner resource) :
    Account ledger closes (event :: trace) unseen owner := by
  refine ⟨⟨⟨fun resource now => absurd now (ends resource),
    fun resource now => absurd now (makes resource), fun now resource held => ?_⟩, account.safe⟩,
    ?_, ?_⟩
  · exact closed now resource ((account.held resource).mp held)
  · rintro resource ⟨maker, member, made⟩
    obtain rfl | earlier := List.mem_cons.mp member
    · exact absurd made (makes resource)
    · exact account.seen resource ⟨maker, earlier, made⟩
  · intro resource
    simp [held_cons, makes, ends, account.held]

theorem Account.make (account : Account ledger closes trace unseen owner)
    (makes : ∀ other, ledger.makes event other ↔ other = resource)
    (ends : ∀ other, ¬ ledger.ends event other) (stays : ¬ closes event) (new : unseen resource)
    (fewer : ∀ other, later other → unseen other ∧ other ≠ resource) :
    Account ledger closes (event :: trace) later (fun other => other = resource ∨ owner other) := by
  have unmade : ¬ Made ledger trace resource := fun made => account.seen resource made new
  refine ⟨⟨⟨fun other now => absurd now (ends other), ?_, fun now => absurd now stays⟩,
    account.safe⟩, ?_, ?_⟩
  · intro other now
    rw [(makes other).mp now]
    exact ⟨unmade, fun ended => unmade (account.made_of_ended ended)⟩
  · rintro other ⟨maker, member, made⟩ unseen
    obtain rfl | earlier := List.mem_cons.mp member
    · exact (fewer other unseen).2 ((makes other).mp made)
    · exact account.seen other ⟨maker, earlier, made⟩ (fewer other unseen).1
  · intro other
    simp [held_cons, makes, ends, account.held]

theorem Account.finish (account : Account ledger closes trace unseen owner)
    (makes : ∀ other, ¬ ledger.makes event other)
    (ends : ∀ other, ledger.ends event other ↔ other = resource) (stays : ¬ closes event)
    (owned : owner resource) :
    Account ledger closes (event :: trace) unseen (fun other => other ≠ resource ∧ owner other) := by
  refine ⟨⟨⟨?_, fun other now => absurd now (makes other), fun now => absurd now stays⟩,
    account.safe⟩, ?_, ?_⟩
  · intro other now
    rw [(ends other).mp now]
    exact (account.held resource).mpr owned
  · rintro other ⟨maker, member, made⟩
    obtain rfl | earlier := List.mem_cons.mp member
    · exact absurd made (makes other)
    · exact account.seen other ⟨maker, earlier, made⟩
  · intro other
    simp [held_cons, makes, ends, account.held]

theorem Account.once (account : Account ledger closes trace unseen owner) {next past : List E}
    (split : trace = next ++ event :: past) (ends : ledger.ends event resource) :
    ¬ Ended ledger past resource := by
  obtain ⟨here, _⟩ := always_split (split ▸ account.safe)
  have fresh := always_split (split ▸ account.fresh)
  exact not_ended_of_held fresh.2 (here.1 resource ends)

theorem Account.closed (account : Account ledger closes trace unseen owner) {next past : List E}
    (split : trace = next ++ event :: past) (now : closes event) :
    ¬ Held ledger past resource := by
  obtain ⟨here, _⟩ := always_split (split ▸ account.safe)
  exact here.2.2 now resource

end Account

end Ownership
