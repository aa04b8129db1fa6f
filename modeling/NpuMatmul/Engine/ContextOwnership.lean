import NpuMatmul.Engine.ContextLedger

set_option autoImplicit false

namespace NpuMatmul

open Ownership

def CachedGraph.Belongs (graph : CachedGraph) : Prop :=
  ∀ handle, graph.graphHandle = some handle → graph.contextHandle = some handle.context

-- Every context still held is the context of a cached graph, and of one only.
structure Accounted (s : State) : Prop where
  ledger : ContextLedger s.calls s.serial
  distinct : (contextsOf s.graphCache).Nodup
  seen : ∀ context ∈ contextsOf s.graphCache, context.serial < s.serial
  cached : ∀ entry ∈ s.graphCache, ∀ context, entry.2.contextHandle = some context →
    (entry.2.isValid = true ↔ Held outstanding s.calls context)
  dynamic : ∀ context ∈ contextsOf s.globalDynamicFcGraphs,
    Held outstanding s.calls context ∧ context ∉ contextsOf s.graphCache
  complete : ∀ context, Held outstanding s.calls context →
    context ∈ contextsOf s.graphCache ∨ context ∈ contextsOf s.globalDynamicFcGraphs
  graphs : ∀ entry ∈ s.graphCache, entry.2.Belongs
  dynamicGraphs : ∀ entry ∈ s.globalDynamicFcGraphs, entry.2.Belongs
  idle : s.interface = none → contextsOf s.globalDynamicFcGraphs = []

-- No context is left behind: every cached one is held, and pipeline.h holds none.
def LeavesNoContext (s : State) : Prop :=
  s.interface.isSome →
    (∀ entry ∈ s.graphCache, entry.2.contextHandle.isSome → entry.2.isValid = true) ∧
      ∀ entry ∈ s.globalDynamicFcGraphs, entry.2.contextHandle = none

def NoneHeld (calls : List Call) (serial : Nat) : Prop :=
  ContextLedger calls serial ∧ ∀ context, ¬ Held outstanding calls context

section NoneHeld

theorem NoneHeld.cons {calls : List Call} {serial next : Nat} (none : NoneHeld calls serial)
    {call : Call} (apart : ∀ context, ¬ call.contextMade context ∧ ¬ call.contextUsed context)
    (grows : serial ≤ next) : NoneHeld (call :: calls) next := by
  obtain ⟨ledger, free⟩ := none
  constructor
  · apply ledger.cons grows
    · exact fun context used => absurd used (apart context).2
    · exact fun _ => free
    · exact fun context made => absurd made (apart context).1
  · rintro context (made | ⟨_, earlier⟩)
    · exact (apart context).1 made
    · exact free context earlier

theorem NoneHeld.released {calls : List Call} {serial : Nat} (none : NoneHeld calls serial)
    (handle : Option Handle) (entry : Bool) {free : Handle → Call}
    (apart : ∀ handle context,
      ¬ (free handle).contextMade context ∧ ¬ (free handle).contextUsed context) :
    NoneHeld (State.released handle entry free calls) serial := by
  unfold State.released
  split
  · exact none.cons (apart _) (le_refl serial)
  · exact none

variable {s : State}

theorem Accounted.noneHeld_unload (accounted : Accounted s) (formed : s.WellFormed)
    (leaves : LeavesNoContext s) :
    NoneHeld s.unloadActiveBackend.calls s.serial ∧
      contextsOf s.globalDynamicFcGraphs = [] := by
  have closed {calls : List Call} (library : Bool) (none : NoneHeld calls s.serial) :
      NoneHeld (if library then .dlclose :: calls else calls) s.serial := by
    split
    · exact none.cons (fun _ => ⟨id, id⟩) (le_refl _)
    · exact none
  cases table : s.interface with
  | none =>
      have graphs := formed.cached table
      have dynamic := accounted.idle table
      have none : NoneHeld s.calls s.serial := by
        refine ⟨accounted.ledger, fun context held => ?_⟩
        obtain cached | other := accounted.complete context held
        · simp [graphs, contextsOf] at cached
        · simp [dynamic] at other
      refine ⟨?_, dynamic⟩
      simp only [State.unloadActiveBackend, State.freeHandles, table,
        State.unloadQnnBackendSharedLibrary]
      exact closed _ none
  | some qnn =>
      obtain ⟨graphs, dynamic⟩ := leaves (by simp [table])
      have none : contextsOf s.globalDynamicFcGraphs = [] := by
        rw [contextsOf, List.filterMap_eq_nil_iff]
        exact dynamic
      obtain ⟨ledger, kept⟩ := accounted.ledger.freeContexts accounted.distinct (by
        intro context member
        obtain ⟨entry, inside, same⟩ := List.mem_filterMap.mp member
        exact (accounted.cached entry inside context same).mp
          (graphs entry inside (by simp [same])))
      have cleared : NoneHeld (State.freeContexts s.graphCache s.calls) s.serial := by
        refine ⟨ledger, fun context held => ?_⟩
        obtain ⟨outside, before⟩ := (kept context).mp held
        obtain cached | other := accounted.complete context before
        · exact outside cached
        · simp [none] at other
      refine ⟨?_, none⟩
      simp only [State.unloadActiveBackend, State.freeHandles, table,
        State.unloadQnnBackendSharedLibrary, State.freeLog, State.freeBackend, State.freeDevice,
        State.clearGraphs]
      apply closed
      apply NoneHeld.released _ _ _ fun _ _ => ⟨id, id⟩
      apply NoneHeld.released _ _ _ fun _ _ => ⟨id, id⟩
      exact cleared.released _ _ fun _ _ => ⟨id, id⟩

theorem accounted_of_noneHeld {t : State} (none : NoneHeld t.calls t.serial)
    (graphs : t.graphCache = []) (dynamic : contextsOf t.globalDynamicFcGraphs = [])
    (belong : ∀ entry ∈ t.globalDynamicFcGraphs, entry.2.Belongs) : Accounted t := by
  refine ⟨none.1, ?_, ?_, ?_, ?_, ?_, ?_, belong, fun _ => dynamic⟩
  · simp [graphs, contextsOf]
  · simp [graphs, contextsOf]
  · simp [graphs]
  · simp [dynamic]
  · exact fun context held => absurd held (none.2 context)
  · simp [graphs]

end NoneHeld

section Load

variable {s : State}

theorem NoneHeld.loadLibrary (none : NoneHeld s.calls s.serial) (backendChoice : Int)
    (outcome : LoadOutcome) :
    NoneHeld (s.loadLibrary backendChoice outcome).calls
      (s.loadLibrary backendChoice outcome).serial := by
  have opened {t : State} (none : NoneHeld t.calls t.serial) (path : String) :
      NoneHeld (t.loadQnnBackendSharedLibrary outcome path).calls
        (t.loadQnnBackendSharedLibrary outcome path).serial :=
    none.cons (fun _ => ⟨id, id⟩) (le_refl _)
  unfold State.loadLibrary
  dsimp only
  split
  · exact opened none _
  · exact opened (opened none _) _

theorem NoneHeld.optional {calls : List Call} {serial next : Nat} (none : NoneHeld calls serial)
    (made : Bool) {call : Call}
    (apart : ∀ context, ¬ call.contextMade context ∧ ¬ call.contextUsed context)
    (grows : serial ≤ next) : NoneHeld (if made then call :: calls else calls) next := by
  cases made with
  | true => exact none.cons apart grows
  | false =>
      refine ⟨⟨none.1.safe, fun context made => ?_⟩, none.2⟩
      have old := none.1.fresh context made
      omega

theorem NoneHeld.createHandles (none : NoneHeld s.calls s.serial) (outcome : LoadOutcome) :
    NoneHeld (s.createHandles outcome).calls (s.createHandles outcome).serial := by
  unfold State.createHandles
  split
  case h_1 qnn _ =>
    have logged : NoneHeld (s.createLog qnn outcome.logCreated).calls (s.serial + 1) :=
      none.optional qnn.logCreate (fun _ => ⟨id, id⟩) (Nat.le_succ _)
    have created : NoneHeld
        ((s.createLog qnn outcome.logCreated).createBackend outcome.backendCreated).calls
        (s.serial + 2) := logged.cons (fun _ => ⟨id, id⟩) (Nat.le_succ _)
    exact created.optional qnn.deviceCreate (fun _ => ⟨id, id⟩) (Nat.le_succ _)
  case h_2 => exact none

def LoadLeavesNoContext (s : State) (backendChoice : Int) : Prop :=
  s.serves backendChoice = true ∨ LeavesNoContext s

theorem Accounted.loadBackend (accounted : Accounted s) (formed : s.WellFormed)
    {backendChoice : Int} (leaves : LoadLeavesNoContext s backendChoice) (outcome : LoadOutcome) :
    Accounted (s.loadBackend backendChoice outcome) := by
  obtain ⟨_, cache, _, kept⟩ := State.loadBackend_correct formed backendChoice outcome
  cases same : s.serves backendChoice with
  | true =>
      rw [State.loadBackend_serves s outcome same]
      exact accounted
  | false =>
      have leaves : LeavesNoContext s := by simpa [LoadLeavesNoContext, same] using leaves
      obtain ⟨none, dynamic⟩ := accounted.noneHeld_unload formed leaves
      have serial := (State.unloadActiveBackend_unloaded s).serial
      have unloaded : NoneHeld s.unloadActiveBackend.calls s.unloadActiveBackend.serial := by
        rw [serial]
        exact none
      have reopened : NoneHeld (s.reopened backendChoice outcome).calls
          (s.reopened backendChoice outcome).serial :=
        NoneHeld.loadLibrary
          (s := { s.unloadActiveBackend with currentBackendChoice := backendChoice }) unloaded
          backendChoice outcome
      rw [State.retained, same] at cache
      apply accounted_of_noneHeld
      · rw [State.loadBackend_reopened s outcome same]
        exact reopened.createHandles outcome
      · exact cache
      · rw [kept.globalDynamicFcGraphs]
        exact dynamic
      · rw [kept.globalDynamicFcGraphs]
        exact accounted.dynamicGraphs

theorem Accounted.unload (accounted : Accounted s) (formed : s.WellFormed)
    (leaves : LeavesNoContext s) : Accounted s.unloadActiveBackend := by
  have unloaded := State.unloadActiveBackend_unloaded s
  obtain ⟨none, dynamic⟩ := accounted.noneHeld_unload formed leaves
  apply accounted_of_noneHeld
  · rw [unloaded.serial]
    exact none
  · exact formed.unloaded.2
  · rw [unloaded.globalDynamicFcGraphs]
    exact dynamic
  · rw [unloaded.globalDynamicFcGraphs]
    exact accounted.dynamicGraphs

end Load

section Graphs

variable {s t : State}

theorem Accounted.kept (accounted : Accounted s) (backend : State.SameBackend s t)
    (caches : State.SameCaches s t) (grows : s.serial ≤ t.serial)
    (ledger : ContextLedger t.calls t.serial)
    (held : ∀ context, Held outstanding t.calls context ↔ Held outstanding s.calls context) :
    Accounted t := by
  obtain ⟨graphCache, globalDynamicFcGraphs, _⟩ := caches
  refine ⟨ledger, ?_, ?_, ?_, ?_, ?_, ?_, ?_, ?_⟩
  · rw [graphCache]
    exact accounted.distinct
  · rw [graphCache]
    exact fun context member => (accounted.seen context member).trans_le grows
  · simp only [graphCache, held]
    exact accounted.cached
  · simp only [graphCache, globalDynamicFcGraphs, held]
    exact accounted.dynamic
  · simp only [graphCache, globalDynamicFcGraphs, held]
    exact accounted.complete
  · rw [graphCache]
    exact accounted.graphs
  · rw [globalDynamicFcGraphs]
    exact accounted.dynamicGraphs
  · rw [State.interface, backend.backendContainer, globalDynamicFcGraphs]
    exact accounted.idle

theorem Accounted.quiet (accounted : Accounted s) {call : Call} (quiet : call.Quiet) :
    Accounted (s.call call) :=
  accounted.kept ⟨rfl, rfl, rfl, rfl, rfl, rfl⟩ ⟨rfl, rfl, rfl⟩ (le_refl _)
    (accounted.ledger.quiet quiet (le_refl _)) (held_quiet quiet)

theorem Accounted.fresh_unheld (accounted : Accounted s) : ¬ Held outstanding s.calls s.fresh := by
  intro held
  have old := accounted.ledger.fresh s.fresh (made_of_held held)
  exact Nat.lt_irrefl _ old

theorem Accounted.fresh_uncached (accounted : Accounted s) :
    s.fresh ∉ contextsOf s.graphCache := by
  intro member
  exact Nat.lt_irrefl _ (accounted.seen s.fresh member)

theorem builtEntry_belongs (M K N : Nat) (outcome : BuildOutcome) :
    (s.builtEntry M K N outcome).Belongs :=
  fun _ built => builtGraph_context s outcome built

def Executable (s : State) (graph : CachedGraph) : Prop :=
  ∀ handle, graph.graphHandle = some handle → Held outstanding s.calls handle.context

theorem Accounted.executable (accounted : Accounted s) {entry : String × CachedGraph}
    (member : entry ∈ s.graphCache) (valid : entry.2.isValid = true) : Executable s entry.2 := by
  intro handle same
  have belongs := accounted.graphs entry member handle same
  exact (accounted.cached entry member handle.context belongs).mp valid

theorem Accounted.dynamicExecutable (accounted : Accounted s) {entry : String × CachedGraph}
    (member : entry ∈ s.globalDynamicFcGraphs) : Executable s entry.2 := by
  intro handle same
  have belongs := accounted.dynamicGraphs entry member handle same
  exact (accounted.dynamic handle.context (List.mem_filterMap.mpr ⟨entry, member, belongs⟩)).1

section CacheEntry

variable {key : String} {M K N : Nat} {outcome : BuildOutcome}

theorem mem_contextsOf_cacheEntry (context : Handle) :
    context ∈ contextsOf ((key, s.builtEntry M K N outcome) :: s.graphCache) ↔
      s.builtContext outcome = some context ∨ context ∈ contextsOf s.graphCache := by
  simp [contextsOf, State.builtEntry]

theorem Accounted.cacheEntry_distinct (accounted : Accounted s) :
    (contextsOf ((key, s.builtEntry M K N outcome) :: s.graphCache)).Nodup := by
  have distinct := accounted.distinct
  cases built : s.builtContext outcome with
  | none => simpa [contextsOf, State.builtEntry, built] using distinct
  | some context =>
      have new := accounted.fresh_uncached
      rw [← builtContext_fresh s outcome built] at new
      have longer : contextsOf ((key, s.builtEntry M K N outcome) :: s.graphCache) =
          context :: contextsOf s.graphCache := by simp [contextsOf, State.builtEntry, built]
      rw [longer]
      exact List.nodup_cons.mpr ⟨new, distinct⟩

variable {calls : List Call} (held : ∀ context, Held outstanding calls context ↔
  (outcome = .finalized ∧ s.builtContext outcome = some context) ∨
    Held outstanding s.calls context)

include held

theorem Accounted.cacheEntry_cached (accounted : Accounted s) :
    ∀ entry ∈ (key, s.builtEntry M K N outcome) :: s.graphCache, ∀ context,
      entry.2.contextHandle = some context →
        (entry.2.isValid = true ↔ Held outstanding calls context) := by
  intro entry member context same
  rw [held]
  obtain rfl | old := List.mem_cons.mp member
  · have built : s.builtContext outcome = some context := same
    have new := builtContext_fresh s outcome built
    subst new
    simp [State.builtEntry, built, accounted.fresh_unheld]
  · have seen := accounted.seen context (List.mem_filterMap.mpr ⟨entry, old, same⟩)
    rw [accounted.cached entry old context same]
    constructor
    · exact Or.inr
    · rintro (⟨_, built⟩ | kept)
      · rw [builtContext_fresh s outcome built] at seen
        exact absurd seen (Nat.lt_irrefl _)
      · exact kept

theorem Accounted.cacheEntry_dynamic (accounted : Accounted s) :
    ∀ context ∈ contextsOf s.globalDynamicFcGraphs, Held outstanding calls context ∧
      context ∉ contextsOf ((key, s.builtEntry M K N outcome) :: s.graphCache) := by
  intro context member
  obtain ⟨kept, outside⟩ := accounted.dynamic context member
  rw [held, mem_contextsOf_cacheEntry]
  refine ⟨Or.inr kept, ?_⟩
  rintro (built | cached)
  · rw [builtContext_fresh s outcome built] at kept
    exact accounted.fresh_unheld kept
  · exact outside cached

end CacheEntry

theorem Accounted.cacheEntry (accounted : Accounted s) {key : String} {M K N : Nat}
    {outcome : BuildOutcome} (ready : s.interface.isSome) (backend : State.SameBackend s t)
    (graphCache : t.graphCache = (key, s.builtEntry M K N outcome) :: s.graphCache)
    (dynamic : t.globalDynamicFcGraphs = s.globalDynamicFcGraphs)
    (serial : t.serial = s.serial + 2) (ledger : ContextLedger t.calls t.serial)
    (held : ∀ context, Held outstanding t.calls context ↔
      (outcome = .finalized ∧ s.builtContext outcome = some context) ∨
        Held outstanding s.calls context) : Accounted t where
  ledger := ledger
  distinct := by
    rw [graphCache]
    exact accounted.cacheEntry_distinct
  seen := by
    intro context member
    rw [serial]
    rw [graphCache, mem_contextsOf_cacheEntry] at member
    obtain built | old := member
    · rw [builtContext_fresh s outcome built]
      simp [State.fresh]
    · have seen := accounted.seen context old
      omega
  cached := by
    rw [graphCache]
    exact accounted.cacheEntry_cached held
  dynamic := by
    rw [graphCache, dynamic]
    exact accounted.cacheEntry_dynamic held
  complete := by
    intro context now
    rw [graphCache, mem_contextsOf_cacheEntry, dynamic]
    obtain ⟨_, built⟩ | before := (held context).mp now
    · exact Or.inl (Or.inl built)
    · exact (accounted.complete context before).imp_left Or.inr
  graphs := by
    intro entry member
    rw [graphCache] at member
    obtain rfl | old := List.mem_cons.mp member
    · exact builtEntry_belongs M K N outcome
    · exact accounted.graphs entry old
  dynamicGraphs := by
    rw [dynamic]
    exact accounted.dynamicGraphs
  idle := by
    intro idle
    rw [State.interface, backend.backendContainer] at idle
    simp [State.interface, idle] at ready

theorem Accounted.getOrCreateGraph (accounted : Accounted s) {M K N : Nat}
    {useStaticWeights : Bool} {staticWeightsPtr : Option Nat} {outcome : BuildOutcome}
    {graph : CachedGraph}
    (returned : s.getOrCreateGraph M K N useStaticWeights staticWeightsPtr outcome =
      some (t, graph)) :
    Accounted t ∧ (graph.isValid = true → Executable t graph) := by
  have backend := State.getOrCreateGraph_sameBackend returned
  have others := State.getOrCreateGraph_others returned
  obtain ⟨ledger, held⟩ := accounted.ledger.build outcome
  obtain ⟨found, rfl⟩ | ⟨_, ready, ⟨done, rfl, rfl⟩ | ⟨failed, rfl, rfl⟩⟩ :=
    State.getOrCreateGraph_cases returned
  · have quiet : (Call.cacheHit graph.contextHandle graph.graphHandle).Quiet :=
      ⟨id, fun _ => ⟨id, id⟩⟩
    refine ⟨accounted.quiet quiet, fun valid handle same => ?_⟩
    exact (held_quiet quiet handle.context).mpr
      (accounted.executable (mem_of_lookup found) valid handle same)
  · have now := accounted.cacheEntry ready backend rfl others.1 rfl ledger (by
      intro context
      rw [State.cacheBuilt, State.cache_calls, held]
      simp [done])
    refine ⟨now, fun valid => now.executable List.mem_cons_self valid⟩
  · obtain ⟨freed, gone⟩ := ledger.free (s.builtContext outcome) (fun handle built =>
      (held handle).mpr (Or.inl built))
    refine ⟨accounted.cacheEntry ready backend rfl others.1 rfl freed ?_, ?_⟩
    · intro context
      rw [State.cacheFailed, State.cacheBuilt, State.call_calls, State.cache_calls, gone, held]
      have new (built : s.builtContext outcome = some context) :
          ¬ Held outstanding s.calls context := by
        rw [builtContext_fresh s outcome built]
        exact accounted.fresh_unheld
      tauto
    · intro valid
      cases valid

theorem Accounted.execute (accounted : Accounted s) {graph : CachedGraph}
    (executable : Executable s graph) (useStaticWeights : Bool) (outcome : ExecuteOutcome) :
    Accounted (s.execute graph useStaticWeights outcome) := by
  obtain ⟨backend, caches⟩ := State.execute_same s graph useStaticWeights outcome
  cases useStaticWeights with
  | false =>
      obtain ⟨ledger, held⟩ :=
        accounted.ledger.execute graph.graphHandle outcome.executed executable
      exact accounted.kept backend caches (le_refl _) ledger held
  | true =>
      obtain ⟨built, made⟩ := accounted.ledger.build outcome.temporary
      obtain ⟨executed, same⟩ := built.execute (s.builtGraph outcome.temporary) outcome.executed
        (fun handle graph => (made handle.context).mpr
          (Or.inl (builtGraph_context s outcome.temporary graph)))
      obtain ⟨freed, gone⟩ := executed.free (s.builtContext outcome.temporary) (fun handle graph =>
        (same handle).mpr ((made handle).mpr (Or.inl graph)))
      apply accounted.kept backend caches (Nat.le_add_right _ 2) freed
      intro context
      refine (gone context).trans ?_
      rw [same, made]
      have new (built : s.builtContext outcome.temporary = some context) :
          ¬ Held outstanding s.calls context := by
        rw [builtContext_fresh s outcome.temporary built]
        exact accounted.fresh_unheld
      tauto

theorem Accounted.executeRounds (accounted : Accounted s) {graph : CachedGraph}
    (executable : Executable s graph) (executed : Nat → Bool) (rounds : Nat) :
    Accounted (s.executeRounds graph executed rounds) ∧
      Executable (s.executeRounds graph executed rounds) graph := by
  induction rounds with
  | zero => exact ⟨accounted, executable⟩
  | succ rounds ih =>
      obtain ⟨before, ready⟩ := ih
      obtain ⟨ledger, held⟩ := before.ledger.execute graph.graphHandle (executed rounds) ready
      constructor
      · exact before.kept ⟨rfl, rfl, rfl, rfl, rfl, rfl⟩ ⟨rfl, rfl, rfl⟩ (le_refl _) ledger held
      · exact fun handle same => (held handle.context).mpr (ready handle same)

theorem Accounted.dynamicGraph (accounted : Accounted s) (ready : s.interface.isSome)
    {M K N : Nat} {outcome : BuildOutcome} {graph : CachedGraph}
    (returned : s.dynamicGraph M K N outcome = (t, graph)) :
    Accounted t ∧ Executable t graph := by
  obtain ⟨ledger, held⟩ := accounted.ledger.build outcome
  obtain ⟨found, rfl⟩ | ⟨_, rfl, rfl⟩ := State.dynamicGraph_cases returned
  · have quiet : (Call.cacheHit graph.contextHandle graph.graphHandle).Quiet :=
      ⟨id, fun _ => ⟨id, id⟩⟩
    refine ⟨accounted.quiet quiet, fun handle same => ?_⟩
    exact (held_quiet quiet handle.context).mpr
      (accounted.dynamicExecutable (mem_of_lookup found) handle same)
  · let t := (s.buildGraph outcome).cacheDynamic (graphKey M K N) (s.builtEntry M K N outcome)
    have contexts (context : Handle) : context ∈ contextsOf t.globalDynamicFcGraphs ↔
        s.builtContext outcome = some context ∨ context ∈ contextsOf s.globalDynamicFcGraphs := by
      simp [t, contextsOf, State.builtEntry]
    have now : Accounted t := by
      refine ⟨ledger, accounted.distinct, ?_, ?_, ?_, ?_, accounted.graphs, ?_, ?_⟩
      · intro context member
        have seen := accounted.seen context member
        exact seen.trans (Nat.lt_add_of_pos_right Nat.zero_lt_two)
      · intro entry member context same
        have seen := accounted.seen context (List.mem_filterMap.mpr ⟨entry, member, same⟩)
        refine (accounted.cached entry member context same).trans ?_
        refine Iff.trans ?_ (held context).symm
        constructor
        · exact Or.inr
        · rintro (built | kept)
          · rw [builtContext_fresh s outcome built] at seen
            exact absurd seen (Nat.lt_irrefl _)
          · exact kept
      · intro context member
        obtain built | old := (contexts context).mp member
        · refine ⟨(held context).mpr (Or.inl built), ?_⟩
          rw [builtContext_fresh s outcome built]
          exact accounted.fresh_uncached
        · obtain ⟨kept, outside⟩ := accounted.dynamic context old
          exact ⟨(held context).mpr (Or.inr kept), outside⟩
      · intro context kept
        rw [contexts]
        obtain built | before := (held context).mp kept
        · exact Or.inr (Or.inl built)
        · exact (accounted.complete context before).imp_right Or.inr
      · intro entry member
        obtain rfl | old := List.mem_cons.mp member
        · exact builtEntry_belongs M K N outcome
        · exact accounted.dynamicGraphs entry old
      · intro idle
        change s.interface = none at idle
        simp [idle] at ready
    exact ⟨now, now.dynamicExecutable List.mem_cons_self⟩

theorem Accounted.diagnostics (accounted : Accounted s) (quiet : Bool) :
    Accounted (s.performDiagnosticsIfNeeded quiet) := by
  have marked : Accounted { s with diagnosticsPerformed := true } :=
    accounted.kept ⟨rfl, rfl, rfl, rfl, rfl, rfl⟩ ⟨rfl, rfl, rfl⟩ (le_refl _) accounted.ledger
      fun _ => Iff.rfl
  unfold State.performDiagnosticsIfNeeded
  split
  · exact accounted
  · dsimp only
    split
    · split
      · exact marked.quiet ⟨id, fun _ => ⟨id, id⟩⟩
      · exact marked
    · exact marked

theorem Accounted.fetchModel (accounted : Accounted s) (M K N : Nat) (backendChoice : Int)
    (outcome : ModelOutcome) : Accounted (s.fetchModel M K N backendChoice outcome).1 := by
  obtain ⟨models, fetched⟩ := State.fetchModel_fields s M K N backendChoice outcome
  rw [fetched]
  exact ⟨accounted.ledger, accounted.distinct, accounted.seen, accounted.cached,
    accounted.dynamic, accounted.complete, accounted.graphs, accounted.dynamicGraphs,
    accounted.idle⟩

end Graphs

def FreesContexts (s : State) : Request → Prop
  | .loadBackend backendChoice _ | .initializeNpublas backendChoice _ _
  | .matmul _ _ _ backendChoice _ _ | .matmulTiled _ _ _ _ backendChoice _ =>
      LoadLeavesNoContext s backendChoice
  | .unloadActiveBackend => LeavesNoContext s
  | .getOrCreateGraph .. | .execute .. => True

section Run

theorem Accounted.step {s next : State} {request : Request} (accounted : Accounted s)
    (formed : s.WellFormed) (frees : FreesContexts s request)
    (moved : step s request = some next) : Accounted next := by
  cases request with
  | loadBackend backendChoice outcome =>
      cases moved
      exact accounted.loadBackend formed frees outcome
  | initializeNpublas backendChoice quiet outcome =>
      cases moved
      exact (accounted.loadBackend formed frees outcome).diagnostics quiet
  | getOrCreateGraph M K N useStaticWeights staticWeightsPtr outcome =>
      obtain ⟨⟨t, graph⟩, returned, rfl⟩ := Option.map_eq_some_iff.mp moved
      exact (accounted.getOrCreateGraph returned).1
  | execute key useStaticWeights outcome =>
      obtain rfl | ⟨graph, found, valid, rfl⟩ := step_execute_cases moved
      · exact accounted
      · exact accounted.execute (accounted.executable (mem_of_lookup found) valid)
          useStaticWeights outcome
  | matmul M K N backendChoice useStaticWeights outcome =>
      have loaded := accounted.loadBackend formed frees outcome.load
      obtain ⟨⟨t, C⟩, returned, rfl⟩ := Option.map_eq_some_iff.mp moved
      obtain ⟨_, u, graph, created, ran⟩ | ⟨_, rfl⟩ := State.matmulInt8_cases returned
      · obtain ⟨built, executable⟩ := loaded.getOrCreateGraph created
        obtain ⟨valid, rfl⟩ | ⟨_, rfl⟩ := ran
        · exact built.execute (executable valid) useStaticWeights outcome.execute
        · exact built
      · exact loaded.fetchModel M K N backendChoice outcome.model
  | matmulTiled M K N splits backendChoice outcome =>
      have loaded := accounted.loadBackend formed frees outcome.load
      obtain ⟨_, _, after, _⟩ := State.loadBackend_correct formed backendChoice outcome.load
      obtain ⟨⟨t, C⟩, returned, rfl⟩ := Option.map_eq_some_iff.mp moved
      obtain ⟨ready, _, u, graph, found, ran⟩ | ⟨_, rfl⟩ := State.matmulTiled_cases returned
      · obtain ⟨built, executable⟩ := loaded.dynamicGraph (after.loaded ready) found
        obtain ⟨_, rfl⟩ | ⟨_, rfl⟩ := ran
        · exact (built.executeRounds executable outcome.executed splits.k).1
        · exact built
      · exact loaded
  | unloadActiveBackend =>
      cases moved
      exact accounted.unload formed frees

theorem accounted_start (outcome : LoadOutcome) : Accounted (start outcome) := by
  have formed := wellFormed_blank
  have none : NoneHeld State.blank.calls State.blank.serial := by
    refine ⟨⟨trivial, ?_⟩, fun _ => id⟩
    rintro _ ⟨_, member, _⟩
    cases member
  have blank : Accounted State.blank :=
    accounted_of_noneHeld none rfl rfl (by simp [State.blank])
  exact blank.loadBackend formed (Or.inr fun _ => ⟨by simp [State.blank], by simp [State.blank]⟩)
    outcome

end Run

-- In a run whose unloads leave no context behind, each context is freed once: never twice, not
-- used after, and before its backend goes.
theorem contexts_freed_once {outcome : LoadOutcome} {requests : List Request} {last : State}
    (reached : Runs.after step (start outcome) requests = some last)
    (frees : Runs.Along step FreesContexts (start outcome) requests) :
    ContextsFreedOnce last.calls := by
  have kept : last.WellFormed ∧ Accounted last := by
    apply Runs.after_invariant (I := fun s => s.WellFormed ∧ Accounted s) _
      ⟨wellFormed_start outcome, accounted_start outcome⟩ frees reached
    rintro s request next ⟨formed, accounted⟩ free moved
    exact ⟨wellFormed_step formed moved, accounted.step formed free moved⟩
  exact contextsFreedOnce_of_safe kept.2.ledger.safe

theorem contexts_freed_once_switch :
    ∃ last, Runs.after step (start (loadsWith fullTable))
        [.getOrCreateGraph 4 4 4 false none .finalized, .loadBackend 2 (loadsWith fullTable)] =
        some last ∧ ContextsFreedOnce last.calls := by
  have reached : Runs.after step (start (loadsWith fullTable))
      [.getOrCreateGraph 4 4 4 false none .finalized, .loadBackend 2 (loadsWith fullTable)] =
      some _ := rfl
  refine ⟨_, reached, contexts_freed_once reached ?_⟩
  refine ⟨trivial, fun next moved => ⟨?_, fun _ _ => trivial⟩⟩
  cases moved
  refine Or.inr fun _ => ⟨?_, nofun⟩
  intro entry member _
  obtain rfl := List.mem_singleton.mp member
  rfl

-- A graph that does not finalise has its context freed and keeps its entry, so that unloading
-- frees the context again. A tiled graph keeps its context when its library is closed.
theorem contexts_not_freed_once :
    (∃ last, Runs.after step (start (loadsWith fullTable))
        [.getOrCreateGraph 4 4 4 false none .notFinalized, .unloadActiveBackend] = some last ∧
      ¬ ContextsFreedOnce last.calls) ∧
    ∃ last, Runs.after step (start (loadsWith fullTable))
        [.matmulTiled 1 1 1 whole 1 (tiledWith .finalized true), .unloadActiveBackend] = some last ∧
      ¬ ContextsFreedOnce last.calls := by
  refine ⟨⟨_, rfl, ?_⟩, ⟨_, rfl, ?_⟩⟩
  · intro freed
    have once := freed.once { library := 1, serial := 3 }
    revert once
    decide
  · intro freed
    let context : Handle := { library := 1, serial := 3 }
    obtain ⟨call, member, free⟩ := freed.freed [] .dlclose _ rfl trivial context
      ⟨.contextCreate (some ⟨1, 1⟩) (some ⟨1, 2⟩) (some context), by decide, rfl⟩
    cases call with
    | contextFree handle =>
        cases free
        revert member
        decide
    | _ => exact free

end NpuMatmul
