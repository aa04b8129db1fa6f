import NpuMatmul.Engine.RequestSpec

set_option autoImplicit false

namespace NpuMatmul

open Ownership

-- A context is used only while it is held, and a backend goes only when none is held.
def ContextSafe (past : List Call) (call : Call) : Prop :=
  (∀ context, call.contextUsed context → Held outstanding past context) ∧
    (call.closes → ∀ context, ¬ Held outstanding past context) ∧ Fresh outstanding past call

structure ContextsFreedOnce (calls : List Call) : Prop where
  once : ∀ context, calls.count (.contextFree (some context)) ≤ 1
  unused : ∀ later call past, calls = later ++ call :: past → ∀ context,
    call.contextUsed context → ¬ Ended outstanding past context
  freed : ∀ later call past, calls = later ++ call :: past → call.closes → ∀ context,
    Made outstanding past context → Ended outstanding past context

section Safe

variable {calls : List Call}

theorem always_fresh (safe : Always ContextSafe calls) : Always (Fresh outstanding) calls := by
  induction calls with
  | nil => trivial
  | cons call past ih => exact ⟨safe.1.2.2, ih safe.2⟩

theorem not_ended_of_used {past : List Call} {call : Call} (safe : ContextSafe past call)
    (earlier : Always ContextSafe past) {context : Handle} (used : call.contextUsed context) :
    ¬ Ended outstanding past context :=
  not_ended_of_held (always_fresh earlier) (safe.1 context used)

theorem freed_once (safe : Always ContextSafe calls) (context : Handle) :
    calls.count (.contextFree (some context)) ≤ 1 := by
  induction calls with
  | nil => simp
  | cons call past ih =>
      by_cases free : call = .contextFree (some context)
      · have kept : ¬ Ended outstanding past context := by
          apply not_ended_of_used safe.1 safe.2
          rw [free]
          rfl
        have none : past.count (.contextFree (some context)) = 0 := by
          apply List.count_eq_zero_of_not_mem
          intro member
          exact kept ⟨_, member, rfl⟩
        simp [free, none]
      · rw [List.count_cons_of_ne free]
        exact ih safe.2

theorem contextsFreedOnce_of_safe (safe : Always ContextSafe calls) : ContextsFreedOnce calls := by
  constructor
  · exact freed_once safe
  · rintro later call past rfl context used
    obtain ⟨here, earlier⟩ := always_split safe
    exact not_ended_of_used here earlier used
  · rintro later call past rfl closes context made
    obtain ⟨here, _⟩ := always_split safe
    exact ended_of_not_held made (here.2.1 closes context)

end Safe

structure ContextLedger (calls : List Call) (serial : Nat) : Prop where
  safe : Always ContextSafe calls
  fresh : ∀ context, Made outstanding calls context → context.serial < serial

section Ledger

variable {calls : List Call} {serial : Nat} (ledger : ContextLedger calls serial)

theorem made_of_ended (safe : Always ContextSafe calls) {context : Handle}
    (ended : Ended outstanding calls context) : Made outstanding calls context := by
  induction calls with
  | nil =>
      obtain ⟨_, member, _⟩ := ended
      cases member
  | cons call past ih =>
      have later (made : Made outstanding past context) :
          Made outstanding (call :: past) context := by
        obtain ⟨maker, member, makes⟩ := made
        exact ⟨maker, List.mem_cons_of_mem call member, makes⟩
      obtain ⟨ender, member, ends⟩ := ended
      obtain rfl | earlier := List.mem_cons.mp member
      · have used : ender.contextUsed context := by
          cases ender <;> simp_all [outstanding, Call.contextFreed, Call.contextUsed]
        exact later (made_of_held (safe.1.1 context used))
      · exact later (ih safe.2 ⟨ender, earlier, ends⟩)

include ledger in
theorem ContextLedger.cons {call : Call} {next : Nat} (grows : serial ≤ next)
    (used : ∀ context, call.contextUsed context → Held outstanding calls context)
    (closed : call.closes → ∀ context, ¬ Held outstanding calls context)
    (made : ∀ context, call.contextMade context → serial ≤ context.serial ∧ context.serial < next) :
    ContextLedger (call :: calls) next := by
  constructor
  · refine ⟨⟨used, closed, ?_⟩, ledger.safe⟩
    intro context makes
    have new := (made context makes).1
    have unseen : ¬ Made outstanding calls context := by
      intro seen
      have old := ledger.fresh context seen
      omega
    exact ⟨unseen, fun ended => unseen (made_of_ended ledger.safe ended)⟩
  · rintro context ⟨maker, member, makes⟩
    obtain rfl | earlier := List.mem_cons.mp member
    · exact (made context makes).2
    · have old := ledger.fresh context ⟨maker, earlier, makes⟩
      omega

def Call.Quiet (call : Call) : Prop :=
  ¬ call.closes ∧ ∀ context, ¬ call.contextMade context ∧ ¬ call.contextUsed context

theorem quiet_freed {call : Call} (quiet : call.Quiet) (context : Handle) :
    ¬ call.contextFreed context := by
  have unused := (quiet.2 context).2
  cases call <;> simp_all [Call.contextFreed, Call.contextUsed]

theorem held_quiet {call : Call} (quiet : call.Quiet) (context : Handle) :
    Held outstanding (call :: calls) context ↔ Held outstanding calls context := by
  have unmade := (quiet.2 context).1
  have kept := quiet_freed quiet context
  simp [Held, outstanding, unmade, kept]

include ledger in
theorem ContextLedger.quiet {call : Call} (quiet : call.Quiet) {next : Nat}
    (grows : serial ≤ next) : ContextLedger (call :: calls) next := by
  apply ledger.cons grows
  · intro context used
    exact absurd used (quiet.2 context).2
  · intro closes
    exact absurd closes quiet.1
  · intro context made
    exact absurd made (quiet.2 context).1

include ledger in
theorem ContextLedger.free (context : Option Handle)
    (held : ∀ handle, context = some handle → Held outstanding calls handle) :
    ContextLedger (.contextFree context :: calls) serial ∧
      ∀ handle, Held outstanding (.contextFree context :: calls) handle ↔
        context ≠ some handle ∧ Held outstanding calls handle := by
  constructor
  · apply ledger.cons (le_refl serial)
    · exact held
    · exact fun closes => closes.elim
    · exact fun _ made => made.elim
  · intro handle
    simp [Held, outstanding, Call.contextMade, Call.contextFreed]

include ledger in
theorem ContextLedger.execute (graph : Option GraphHandle) (executed : Bool)
    (held : ∀ handle, graph = some handle → Held outstanding calls handle.context) :
    ContextLedger (.graphExecute graph executed :: calls) serial ∧
      ∀ handle, Held outstanding (.graphExecute graph executed :: calls) handle ↔
        Held outstanding calls handle := by
  constructor
  · apply ledger.cons (le_refl serial)
    · intro context used
      obtain ⟨handle, same, rfl⟩ := Option.map_eq_some_iff.mp used
      exact held handle same
    · exact fun closes => closes.elim
    · exact fun _ made => made.elim
  · intro handle
    simp [Held, outstanding, Call.contextMade, Call.contextFreed]

end Ledger

section Build

variable (s : State) (outcome : BuildOutcome)

theorem builtContext_fresh {context : Handle} (built : s.builtContext outcome = some context) :
    context = s.fresh := by
  cases outcome <;> simp_all [State.builtContext]

theorem builtGraph_context {graph : GraphHandle} (built : s.builtGraph outcome = some graph) :
    s.builtContext outcome = some graph.context := by
  cases outcome <;> simp_all [State.builtContext, State.builtGraph] <;> rw [← built]

variable {s}

theorem ContextLedger.build (ledger : ContextLedger s.calls s.serial) :
    ContextLedger (s.buildGraph outcome).calls (s.serial + 2) ∧
      ∀ context, Held outstanding (s.buildGraph outcome).calls context ↔
        s.builtContext outcome = some context ∨ Held outstanding s.calls context := by
  let opened :=
    Call.contextCreate s.backendHandle s.deviceHandle (s.builtContext outcome) :: s.calls
  have openedHeld (context : Handle) : Held outstanding opened context ↔
      s.builtContext outcome = some context ∨ Held outstanding s.calls context := by
    simp [opened, Held, outstanding, Call.contextMade, Call.contextFreed]
  have openedLedger : ContextLedger opened (s.serial + 2) := by
    apply ledger.cons (by omega)
    · exact fun _ used => used.elim
    · exact fun closes => closes.elim
    · intro context made
      rw [builtContext_fresh s outcome made]
      simp [State.fresh]
  have createdLedger : ContextLedger
      (.graphCreate (s.builtContext outcome) (s.builtGraph outcome) :: opened) (s.serial + 2) := by
    apply openedLedger.cons (le_refl _)
    · exact fun context used => (openedHeld context).mpr (Or.inl used)
    · exact fun closes => closes.elim
    · exact fun _ made => made.elim
  have createdHeld (context : Handle) : Held outstanding
      (.graphCreate (s.builtContext outcome) (s.builtGraph outcome) :: opened) context ↔
        Held outstanding opened context := by
    simp [Held, outstanding, Call.contextMade, Call.contextFreed]
  constructor
  · apply createdLedger.cons (le_refl _)
    · intro context used
      obtain ⟨graph, built, rfl⟩ := Option.map_eq_some_iff.mp used
      rw [createdHeld, openedHeld]
      exact Or.inl (builtGraph_context s outcome built)
    · exact fun closes => closes.elim
    · exact fun _ made => made.elim
  · intro context
    rw [← openedHeld, ← createdHeld]
    simp [opened, Held, outstanding, Call.contextMade, Call.contextFreed]

end Build

section Unload

def contextsOf (cache : List (String × CachedGraph)) : List Handle :=
  cache.filterMap fun entry => entry.2.contextHandle

theorem ContextLedger.freeContexts {cache : List (String × CachedGraph)} {calls : List Call}
    {serial : Nat} (ledger : ContextLedger calls serial) (distinct : (contextsOf cache).Nodup)
    (held : ∀ context ∈ contextsOf cache, Held outstanding calls context) :
    ContextLedger (State.freeContexts cache calls) serial ∧
      ∀ context, Held outstanding (State.freeContexts cache calls) context ↔
        context ∉ contextsOf cache ∧ Held outstanding calls context := by
  induction cache generalizing calls with
  | nil => exact ⟨ledger, by simp [State.freeContexts, contextsOf]⟩
  | cons entry rest ih =>
      have freed := ledger.free entry.2.contextHandle (by
        intro context same
        apply held
        simp [contextsOf, same])
      cases first : entry.2.contextHandle with
      | none =>
          have same : contextsOf (entry :: rest) = contextsOf rest := by simp [contextsOf, first]
          rw [same] at distinct held ⊢
          obtain ⟨after, kept⟩ := ih freed.1 distinct (by
            intro context member
            rw [freed.2, first]
            exact ⟨by simp, held context member⟩)
          refine ⟨after, fun context => ?_⟩
          change Held outstanding
            (State.freeContexts rest (.contextFree entry.2.contextHandle :: calls)) context ↔ _
          rw [kept, freed.2, first]
          simp
      | some context =>
          have same : contextsOf (entry :: rest) = context :: contextsOf rest := by
            simp [contextsOf, first]
          rw [same, List.nodup_cons] at distinct
          rw [same] at held ⊢
          obtain ⟨after, kept⟩ := ih freed.1 distinct.2 (by
            intro other member
            rw [freed.2, first]
            refine ⟨?_, held other (List.mem_cons_of_mem _ member)⟩
            intro equal
            cases equal
            exact distinct.1 member)
          refine ⟨after, fun other => ?_⟩
          change Held outstanding
            (State.freeContexts rest (.contextFree entry.2.contextHandle :: calls)) other ↔ _
          rw [kept, freed.2, first]
          simp only [ne_eq, Option.some.injEq, List.mem_cons, not_or, eq_comm (a := other)]
          tauto

end Unload

end NpuMatmul
