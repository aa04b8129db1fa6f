import NpuMatmul.Engine.RequestSpec

set_option autoImplicit false

namespace NpuMatmul

open Ownership

-- Handed out before the state's next handle, and held since.
def Known (ledger : Ledger Call Resource) (s : State) (resource : Resource) : Prop :=
  resource.root.serial < s.serial ∧ Held ledger s.calls resource

structure Carries (s t : State) : Prop where
  current : ∀ resource, Known current s resource → Known current t resource
  handedOut : ∀ resource, Known handedOut s resource → Known handedOut t resource

section Carries

variable {s t u : State}

theorem Carries.refl (s : State) : Carries s s := ⟨fun _ => id, fun _ => id⟩

theorem Carries.trans (first : Carries s t) (second : Carries t u) : Carries s u :=
  ⟨fun resource known => second.current resource (first.current resource known),
    fun resource known => second.handedOut resource (first.handedOut resource known)⟩

theorem Carries.same (calls : t.calls = s.calls) (grows : s.serial ≤ t.serial) : Carries s t := by
  constructor <;> rintro resource ⟨old, held⟩ <;> exact ⟨old.trans_le grows, calls ▸ held⟩

def Call.Inert (call : Call) : Prop := ¬ call.switches ∧ ∀ resource, ¬ call.frees resource

theorem Carries.call {call : Call} (inert : call.Inert) : Carries s (s.call call) := by
  constructor
  · rintro resource ⟨old, held⟩
    exact ⟨old, Or.inr ⟨fun ends => ends.elim inert.1 (inert.2 resource), held⟩⟩
  · rintro resource ⟨old, held⟩
    exact ⟨old, Or.inr ⟨inert.1, held⟩⟩

theorem Carries.build (outcome : BuildOutcome) : Carries s (s.buildGraph outcome) := by
  let context := Call.contextCreate s.backendHandle s.deviceHandle (s.builtContext outcome)
  let graph := Call.graphCreate (s.builtContext outcome) (s.builtGraph outcome)
  have opened : Carries s (s.call context) := Carries.call ⟨id, fun _ => id⟩
  have created : Carries (s.call context) ((s.call context).call graph) :=
    Carries.call ⟨id, fun _ => id⟩
  have final : Carries ((s.call context).call graph)
      (((s.call context).call graph).call (.graphFinalize (s.builtGraph outcome))) :=
    Carries.call ⟨id, fun _ => id⟩
  exact ((opened.trans created).trans final).trans
    (Carries.same rfl (by simp [State.buildGraph]))

theorem Carries.free (carries : Carries s t) (outcome : BuildOutcome) :
    Carries s (t.call (.contextFree (s.builtContext outcome))) := by
  have other (resource : Resource) (old : resource.root.serial < s.serial) :
      ¬ (Call.contextFree (s.builtContext outcome)).frees resource := by
    intro frees
    cases outcome <;> cases resource <;>
      simp_all [Call.frees, State.builtContext, Resource.root, State.fresh] <;>
      simp [← frees] at old
  constructor
  · intro resource known
    obtain ⟨old, held⟩ := carries.current resource known
    exact ⟨old, Or.inr ⟨fun ends => ends.elim id (other resource known.1), held⟩⟩
  · intro resource known
    obtain ⟨old, held⟩ := carries.handedOut resource known
    exact ⟨old, Or.inr ⟨id, held⟩⟩

end Carries

structure EntryCurrent (s : State) (graph : CachedGraph) : Prop where
  contexts : ∀ handle, graph.contextHandle = some handle → Known handedOut s (.context handle)
  graphs : ∀ handle, graph.graphHandle = some handle → Known handedOut s (.graph handle)
  valid : graph.isValid = true →
    ∃ handle, graph.graphHandle = some handle ∧ Known current s (.graph handle)

theorem EntryCurrent.carry {s t : State} {graph : CachedGraph} (entry : EntryCurrent s graph)
    (carries : Carries s t) : EntryCurrent t graph := by
  refine ⟨fun handle same => carries.handedOut _ (entry.contexts handle same),
    fun handle same => carries.handedOut _ (entry.graphs handle same), fun valid => ?_⟩
  obtain ⟨handle, same, known⟩ := entry.valid valid
  exact ⟨handle, same, carries.current _ known⟩

theorem builtEntry_current (s : State) (M K N : Nat) (outcome : BuildOutcome) :
    EntryCurrent (s.buildGraph outcome) (s.builtEntry M K N outcome) := by
  cases outcome <;> constructor <;>
    simp [State.builtEntry, State.builtContext, State.builtGraph, Known, Held, handedOut, current,
      Call.makes, Call.switches, Call.frees, Resource.root, State.fresh]

-- No handle the engine holds is stale.
structure HandlesKnown (s : State) : Prop where
  safe : Always HandlesCurrent s.calls
  backend : ∀ handle, s.backendHandle = some handle → Known current s (.backend handle)
  device : s.interface.isSome → ∀ handle, s.deviceHandle = some handle →
    Known current s (.device handle)
  log : s.interface.isSome → ∀ handle, s.logHandle = some handle → Known current s (.log handle)

-- Nor is one of a cached graph, if its context comes from the last load.
structure Owned (s : State) : Prop extends HandlesKnown s where
  used : s.graphCache ≠ [] → s.isLoaded = true
  cached : ∀ entry ∈ s.graphCache, EntryCurrent s entry.2
  dynamic : s.interface.isSome → ∀ entry ∈ s.globalDynamicFcGraphs,
    (∀ handle, entry.2.contextHandle = some handle → handle.library = s.loadCount) →
      EntryCurrent s entry.2
  loaded : ∀ entry ∈ s.globalDynamicFcGraphs, ∀ handle, entry.2.contextHandle = some handle →
    handle.library ≤ s.loadCount
  bare : ∀ entry ∈ s.globalDynamicFcGraphs, entry.2.contextHandle = none →
    entry.2.graphHandle = none ∧ entry.2.isValid = false

section Graphs

variable {s t : State}

theorem Owned.kept (owned : Owned s) (backend : State.SameBackend s t)
    (caches : State.SameCaches s t) (carries : Carries s t)
    (safe : Always HandlesCurrent t.calls) : Owned t := by
  obtain ⟨graphCache, globalDynamicFcGraphs, _⟩ := caches
  refine ⟨⟨safe, ?_, ?_, ?_⟩, ?_, ?_, ?_, ?_, ?_⟩
  · rw [backend.backendHandle]
    exact fun handle same => carries.current _ (owned.backend handle same)
  · rw [State.interface, backend.backendContainer, backend.deviceHandle]
    exact fun ready handle same => carries.current _ (owned.device ready handle same)
  · rw [State.interface, backend.backendContainer, backend.logHandle]
    exact fun ready handle same => carries.current _ (owned.log ready handle same)
  · rw [graphCache, State.isLoaded, backend.backendHandle]
    exact owned.used
  · rw [graphCache]
    exact fun entry member => (owned.cached entry member).carry carries
  · rw [State.interface, backend.backendContainer, globalDynamicFcGraphs, backend.loadCount]
    exact fun ready entry member now => (owned.dynamic ready entry member now).carry carries
  · rw [globalDynamicFcGraphs, backend.loadCount]
    exact owned.loaded
  · rw [globalDynamicFcGraphs]
    exact owned.bare

theorem Owned.call (owned : Owned s) {call : Call} (inert : call.Inert)
    (current : HandlesCurrent s.calls call) : Owned (s.call call) :=
  owned.kept ⟨rfl, rfl, rfl, rfl, rfl, rfl⟩ ⟨rfl, rfl, rfl⟩ (Carries.call inert)
    ⟨current, owned.safe⟩

theorem Owned.hit (owned : Owned s) {graph : CachedGraph} (entry : EntryCurrent s graph) :
    Owned (s.hit graph) ∧ EntryCurrent (s.hit graph) graph := by
  have inert : (Call.cacheHit graph.contextHandle graph.graphHandle).Inert := ⟨id, fun _ => id⟩
  constructor
  · apply owned.call inert
    exact ⟨fun handle same => (entry.contexts handle same).2,
      fun handle same => (entry.graphs handle same).2⟩
  · exact entry.carry (Carries.call inert)

theorem Owned.build (owned : Owned s) (formed : s.WellFormed) (ready : s.isLoaded = true)
    (outcome : BuildOutcome) : Owned (s.buildGraph outcome) := by
  refine owned.kept ?_ ?_ (Carries.build outcome) ?_
  · constructor <;> simp
  · constructor <;> simp
  · obtain ⟨handle, same⟩ := Option.isSome_iff_exists.mp ready
    refine ⟨trivial, trivial, ⟨⟨handle, same, (owned.backend handle same).2⟩, ?_⟩, owned.safe⟩
    exact fun device same => (owned.device (formed.loaded ready) device same).2

theorem Owned.buildFreed (owned : Owned s) (formed : s.WellFormed) (ready : s.isLoaded = true)
    (outcome : BuildOutcome) :
    Owned ((s.buildGraph outcome).call (.contextFree (s.builtContext outcome))) := by
  refine owned.kept ?_ ?_ ((Carries.build outcome).free outcome) ?_
  · constructor <;> simp
  · constructor <;> simp
  · exact ⟨trivial, (owned.build formed ready outcome).safe⟩

theorem builtEntry_freed (s : State) (M K N : Nat) {outcome : BuildOutcome}
    (failed : outcome ≠ .finalized) :
    EntryCurrent ((s.buildGraph outcome).call (.contextFree (s.builtContext outcome)))
      (s.builtEntry M K N outcome) := by
  have built := builtEntry_current s M K N outcome
  have carried (resource : Resource) (known : Known handedOut (s.buildGraph outcome) resource) :
      Known handedOut ((s.buildGraph outcome).call (.contextFree (s.builtContext outcome)))
        resource := ⟨known.1, Or.inr ⟨id, known.2⟩⟩
  refine ⟨fun handle same => carried _ (built.contexts handle same),
    fun handle same => carried _ (built.graphs handle same), ?_⟩
  simp [State.builtEntry, failed]

theorem Owned.cache (owned : Owned s) (ready : s.isLoaded = true) {graph : CachedGraph}
    (entry : EntryCurrent s graph) (key : String) : Owned (s.cache key graph) := by
  refine ⟨⟨owned.safe, owned.backend, owned.device, owned.log⟩, fun _ => ready, ?_, ?_,
    owned.loaded, owned.bare⟩
  · intro other member
    obtain rfl | old := List.mem_cons.mp member
    · exact ⟨entry.contexts, entry.graphs, entry.valid⟩
    · exact (owned.cached other old).carry (Carries.same rfl (le_refl _))
  · exact fun ready other member now =>
      (owned.dynamic ready other member now).carry (Carries.same rfl (le_refl _))

theorem Owned.cacheDynamic (owned : Owned s) {graph : CachedGraph} (entry : EntryCurrent s graph)
    (key : String)
    (loaded : ∀ handle, graph.contextHandle = some handle → handle.library ≤ s.loadCount)
    (bare : graph.contextHandle = none → graph.graphHandle = none ∧ graph.isValid = false) :
    Owned (s.cacheDynamic key graph) := by
  refine ⟨⟨owned.safe, owned.backend, owned.device, owned.log⟩, owned.used, ?_, ?_, ?_, ?_⟩
  · exact fun other member =>
      (owned.cached other member).carry (Carries.same rfl (le_refl _))
  · intro ready other member now
    obtain rfl | old := List.mem_cons.mp member
    · exact ⟨entry.contexts, entry.graphs, entry.valid⟩
    · exact (owned.dynamic ready other old now).carry (Carries.same rfl (le_refl _))
  · intro other member
    obtain rfl | old := List.mem_cons.mp member
    · exact loaded
    · exact owned.loaded other old
  · intro other member
    obtain rfl | old := List.mem_cons.mp member
    · exact bare
    · exact owned.bare other old

theorem Owned.getOrCreateGraph (owned : Owned s) (formed : s.WellFormed)
    (loaded : s.interface.isSome → s.isLoaded = true) {M K N : Nat} {useStaticWeights : Bool}
    {staticWeightsPtr : Option Nat} {outcome : BuildOutcome} {graph : CachedGraph}
    (returned : s.getOrCreateGraph M K N useStaticWeights staticWeightsPtr outcome =
      some (t, graph)) : Owned t ∧ EntryCurrent t graph := by
  obtain ⟨found, rfl⟩ | ⟨_, ready, rest⟩ := State.getOrCreateGraph_cases returned
  · exact owned.hit (owned.cached _ (mem_of_lookup found))
  · have entry := builtEntry_current s M K N outcome
    have cached := (owned.build formed (loaded ready) outcome).cache (loaded ready) entry
      (weightsKey M K N useStaticWeights staticWeightsPtr)
    obtain ⟨_, rfl, rfl⟩ | ⟨_, rfl, rfl⟩ := rest
    · exact ⟨cached, cached.cached _ List.mem_cons_self⟩
    · constructor
      · exact (owned.buildFreed formed (loaded ready) outcome).cache (loaded ready)
          (builtEntry_freed s M K N ‹_›) (weightsKey M K N useStaticWeights staticWeightsPtr)
      · constructor <;> simp [State.dummyInvalid]

theorem Owned.execute (owned : Owned s) (formed : s.WellFormed) (ready : s.isLoaded = true)
    {graph : CachedGraph} (entry : EntryCurrent s graph) (valid : graph.isValid = true)
    {useStaticWeights : Bool} {outcome : ExecuteOutcome}
    (created : useStaticWeights = true →
      outcome.temporary ≠ .noContext ∧ outcome.temporary ≠ .noGraph) :
    Owned (s.execute graph useStaticWeights outcome) := by
  cases useStaticWeights with
  | false =>
      obtain ⟨handle, same, known⟩ := entry.valid valid
      exact owned.call ⟨id, fun _ => id⟩ ⟨handle, same, known.2⟩
  | true =>
      obtain ⟨opened, made⟩ := created rfl
      have same := State.execute_same s graph true outcome
      have carries : Carries s ((s.buildGraph outcome.temporary).call
          (.graphExecute (s.builtGraph outcome.temporary) outcome.executed)) :=
        (Carries.build outcome.temporary).trans (Carries.call ⟨id, fun _ => id⟩)
      apply owned.kept same.1 same.2 (carries.free outcome.temporary)
      refine ⟨trivial, ?_, (owned.build formed ready outcome.temporary).safe⟩
      have built : s.builtGraph outcome.temporary =
          some { context := s.fresh, serial := s.serial + 1 } := by
        cases stage : outcome.temporary <;> simp_all [State.builtGraph]
      refine ⟨_, built, ?_⟩
      cases stage : outcome.temporary <;>
        simp_all [State.builtGraph, State.buildGraph, Held, current, Call.makes, Call.frees,
          Call.switches]

theorem Owned.executeRounds (owned : Owned s) {graph : CachedGraph} (entry : EntryCurrent s graph)
    (valid : graph.isValid = true) (executed : Nat → Bool) (rounds : Nat) :
    Owned (s.executeRounds graph executed rounds) ∧
      EntryCurrent (s.executeRounds graph executed rounds) graph := by
  induction rounds with
  | zero => exact ⟨owned, entry⟩
  | succ rounds ih =>
      obtain ⟨before, kept⟩ := ih
      obtain ⟨handle, same, known⟩ := kept.valid valid
      have inert : (Call.graphExecute graph.graphHandle (executed rounds)).Inert :=
        ⟨id, fun _ => id⟩
      exact ⟨before.call inert ⟨handle, same, known.2⟩, kept.carry (Carries.call inert)⟩

theorem Owned.dynamicGraph (owned : Owned s) (formed : s.WellFormed) (ready : s.isLoaded = true)
    {M K N : Nat} {outcome : BuildOutcome} {graph : CachedGraph}
    (current : ∀ found, s.globalDynamicFcGraphs.lookup (graphKey M K N) = some found →
      ∀ handle, found.contextHandle = some handle → handle.library = s.loadCount)
    (returned : s.dynamicGraph M K N outcome = (t, graph)) : Owned t ∧ EntryCurrent t graph := by
  obtain ⟨found, rfl⟩ | ⟨_, rfl, rfl⟩ := State.dynamicGraph_cases returned
  · exact owned.hit
      (owned.dynamic (formed.loaded ready) _ (mem_of_lookup found) (current graph found))
  · have entry := builtEntry_current s M K N outcome
    constructor
    · apply (owned.build formed ready outcome).cacheDynamic entry
      · intro handle same
        cases outcome <;> simp_all [State.builtEntry, State.builtContext, State.fresh] <;>
          simp [← same]
      · cases outcome <;> simp [State.builtEntry, State.builtContext, State.builtGraph]
    · exact entry.carry (Carries.same rfl (le_refl _))

theorem Owned.diagnostics (owned : Owned s) (quiet : Bool) :
    Owned (s.performDiagnosticsIfNeeded quiet) := by
  have marked : Owned { s with diagnosticsPerformed := true } :=
    owned.kept ⟨rfl, rfl, rfl, rfl, rfl, rfl⟩ ⟨rfl, rfl, rfl⟩ (Carries.same rfl (le_refl _))
      owned.safe
  unfold State.performDiagnosticsIfNeeded
  split
  · exact owned
  case isFalse due =>
    dsimp only
    split
    · split
      · simp only [Bool.or_eq_true, not_or, Bool.not_eq_true', Bool.not_eq_false] at due
        obtain ⟨handle, same⟩ := Option.isSome_iff_exists.mp due.2
        exact marked.call ⟨id, fun _ => id⟩ ⟨handle, same, (owned.backend handle same).2⟩
      · exact marked
    · exact marked

theorem Owned.fetchModel (owned : Owned s) (M K N : Nat) (backendChoice : Int)
    (outcome : ModelOutcome) : Owned (s.fetchModel M K N backendChoice outcome).1 := by
  obtain ⟨models, fetched⟩ := State.fetchModel_fields s M K N backendChoice outcome
  have carries : Carries s { s with models := models, fallbacks := s.fallbacks + 1 } :=
    Carries.same rfl (le_refl _)
  rw [fetched]
  exact ⟨⟨owned.safe, owned.backend, owned.device, owned.log⟩, owned.used,
    fun entry member => (owned.cached entry member).carry carries,
    fun ready entry member now => (owned.dynamic ready entry member now).carry carries,
    owned.loaded, owned.bare⟩

end Graphs

section Load

def Resource.Lasting : Resource → Prop
  | .context _ | .graph _ => False
  | _ => True

theorem freeContexts_safe (cache : List (String × CachedGraph)) {calls : List Call}
    (safe : Always HandlesCurrent calls) :
    Always HandlesCurrent (State.freeContexts cache calls) ∧
      ∀ resource : Resource, resource.Lasting → Held current calls resource →
        Held current (State.freeContexts cache calls) resource := by
  induction cache generalizing calls with
  | nil => exact ⟨safe, fun _ _ => id⟩
  | cons entry rest ih =>
      have freed : Always HandlesCurrent (.contextFree entry.2.contextHandle :: calls) :=
        ⟨trivial, safe⟩
      obtain ⟨after, kept⟩ := ih freed
      refine ⟨after, fun resource lasting held => kept resource lasting (Or.inr ⟨?_, held⟩)⟩
      cases resource <;>
        simp_all [Resource.Lasting, current, Call.switches, Call.frees]

theorem released_safe {calls : List Call} (safe : Always HandlesCurrent calls)
    {handle : Option Handle} {entry : Bool} {free : Handle → Call}
    (allowed : ∀ own, handle = some own → HandlesCurrent calls (free own)) :
    Always HandlesCurrent (State.released handle entry free calls) := by
  unfold State.released
  split
  · exact ⟨allowed _ rfl, safe⟩
  · exact safe

theorem released_held {calls : List Call} {handle : Option Handle} {entry : Bool}
    {free : Handle → Call} {resource : Resource} (held : Held current calls resource)
    (apart : ∀ own, ¬ current.ends (free own) resource) :
    Held current (State.released handle entry free calls) resource := by
  unfold State.released
  split
  · exact Or.inr ⟨apart _, held⟩
  · exact held

variable {s : State}

theorem Owned.unload_safe (owned : Owned s) :
    Always HandlesCurrent s.unloadActiveBackend.calls := by
  have closed {calls : List Call} (library : Bool) (safe : Always HandlesCurrent calls) :
      Always HandlesCurrent (if library then .dlclose :: calls else calls) := by
    cases library
    · exact safe
    · exact ⟨trivial, safe⟩
  cases table : s.interface with
  | none =>
      simp only [State.unloadActiveBackend, State.freeHandles, table,
        State.unloadQnnBackendSharedLibrary]
      exact closed _ owned.safe
  | some qnn =>
      have ready : s.interface.isSome := by simp [table]
      obtain ⟨cleared, kept⟩ := freeContexts_safe s.graphCache owned.safe
      simp only [State.unloadActiveBackend, State.freeHandles, table,
        State.unloadQnnBackendSharedLibrary, State.freeLog, State.freeBackend, State.freeDevice,
        State.clearGraphs]
      apply closed
      apply released_safe
      · apply released_safe
        · apply released_safe cleared
          exact fun device same => kept (.device device) trivial (owned.device ready device same).2
        · intro backend same
          apply released_held (kept (.backend backend) trivial (owned.backend backend same).2)
          simp [current, Call.switches, Call.frees]
      · intro log same
        apply released_held
        · apply released_held (kept (.log log) trivial (owned.log ready log same).2)
          simp [current, Call.switches, Call.frees]
        · simp [current, Call.switches, Call.frees]

theorem loadLibrary_safe (safe : Always HandlesCurrent s.calls) (backendChoice : Int)
    (outcome : LoadOutcome) :
    Always HandlesCurrent (s.loadLibrary backendChoice outcome).calls := by
  unfold State.loadLibrary
  dsimp only
  split
  · exact ⟨trivial, safe⟩
  · exact ⟨trivial, trivial, safe⟩

section Create

variable {t : State} (entry : Bool) {succeeded : Bool} (create : Option Handle → Call)

theorem create_carries (inert : ∀ handle, (create handle).Inert)
    (calls : t.calls = if entry then create (s.created succeeded) :: s.calls else s.calls)
    (serial : t.serial = s.serial + 1) : Carries s t := by
  have called : Carries (s.call (create (s.created succeeded))) t ∨ t.calls = s.calls := by
    cases entry with
    | true => exact Or.inl (Carries.same calls (by simp [serial]))
    | false => exact Or.inr calls
  obtain called | same := called
  · exact (Carries.call (inert _)).trans called
  · exact Carries.same same (by simp [serial])

theorem create_safe (safe : Always HandlesCurrent s.calls)
    (calls : t.calls = if entry then create (s.created succeeded) :: s.calls else s.calls)
    (allowed : ∀ handle, HandlesCurrent s.calls (create handle)) :
    Always HandlesCurrent t.calls := by
  rw [calls]
  cases entry
  · exact safe
  · exact ⟨allowed _, safe⟩

theorem create_known {resource : Handle → Resource} {old : Option Handle} {handle : Handle}
    (calls : t.calls = if entry then create (s.created succeeded) :: s.calls else s.calls)
    (serial : t.serial = s.serial + 1) (root : ∀ own, (resource own).root = own)
    (makes : ∀ own, (create (some own)).makes (resource own))
    (replaced : old.isSome → entry = true ∧ succeeded = true)
    (same : (s.created (entry && succeeded)).or old = some handle) :
    Known current t (resource handle) := by
  by_cases made : entry = true ∧ succeeded = true
  · obtain ⟨rfl, rfl⟩ := made
    obtain rfl : s.fresh = handle := by simpa [State.created] using same
    refine ⟨by simp [root, serial, State.fresh], ?_⟩
    rw [calls]
    exact Or.inl (makes s.fresh)
  · have missing : (entry && succeeded) = false := by simpa using made
    rw [missing] at same
    have kept : old = some handle := by simpa [State.created] using same
    exact absurd (replaced (by simp [kept])) made

end Create

theorem createHandles_known {qnn : InterfaceTable} (table : s.interface = some qnn)
    (safe : Always HandlesCurrent s.calls) {outcome : LoadOutcome}
    (log : s.logHandle.isSome → qnn.logCreate = true ∧ outcome.logCreated = true)
    (device : s.deviceHandle.isSome → qnn.deviceCreate = true ∧ outcome.deviceCreated = true)
    (backend : s.backendHandle = none) : HandlesKnown (s.createHandles outcome) := by
  let logged := s.createLog qnn outcome.logCreated
  let created := logged.createBackend outcome.backendCreated
  have result : s.createHandles outcome = created.createDevice qnn outcome.deviceCreated := by
    simp [State.createHandles, table, created, logged]
  rw [result]
  have logKnown (handle : Handle) (same : logged.logHandle = some handle) :
      Known current logged (.log handle) :=
    create_known qnn.logCreate .logCreate rfl rfl (fun _ => rfl) (fun _ => rfl) log same
  have backendKnown (handle : Handle) (same : created.backendHandle = some handle) :
      Known current created (.backend handle) :=
    create_known true (.backendCreate logged.logHandle) rfl rfl (fun _ => rfl) (fun _ => rfl)
      (by simp [logged, State.createLog, backend]) same
  have second : Carries logged created :=
    create_carries true (.backendCreate logged.logHandle) (fun _ => ⟨id, fun _ => id⟩) rfl rfl
  have third : Carries created (created.createDevice qnn outcome.deviceCreated) :=
    create_carries qnn.deviceCreate .deviceCreate (fun _ => ⟨id, fun _ => id⟩) rfl rfl
  have loggedSafe : Always HandlesCurrent logged.calls :=
    create_safe qnn.logCreate .logCreate safe rfl fun _ => trivial
  have createdSafe : Always HandlesCurrent created.calls :=
    create_safe true (.backendCreate logged.logHandle) loggedSafe rfl fun _ handle same =>
      (logKnown handle same).2
  refine ⟨create_safe qnn.deviceCreate .deviceCreate createdSafe rfl fun _ => trivial, ?_, ?_, ?_⟩
  · exact fun handle same => third.current _ (backendKnown handle same)
  · exact fun _ handle same =>
      create_known qnn.deviceCreate .deviceCreate rfl rfl (fun _ => rfl) (fun _ => rfl) device same
  · exact fun _ handle same => third.current _ (second.current _ (logKnown handle same))

end Load

def LoadReplaces (s : State) (backendChoice : Int) (outcome : LoadOutcome) : Prop :=
  s.serves backendChoice = true ∨ ∀ qnn, outcome.table backendChoice = some qnn →
    (s.leftoverLog.isSome → qnn.logCreate = true ∧ outcome.logCreated = true) ∧
      (s.leftoverDevice.isSome → qnn.deviceCreate = true ∧ outcome.deviceCreated = true)

section Reload

variable {s : State}

theorem Owned.reopened_known (owned : Owned s) (formed : s.WellFormed) {backendChoice : Int}
    {outcome : LoadOutcome}
    (replaces : ∀ qnn, outcome.table backendChoice = some qnn →
      (s.leftoverLog.isSome → qnn.logCreate = true ∧ outcome.logCreated = true) ∧
        (s.leftoverDevice.isSome → qnn.deviceCreate = true ∧ outcome.deviceCreated = true)) :
    HandlesKnown ((s.reopened backendChoice outcome).createHandles outcome) := by
  obtain ⟨table, _, _, idle, _⟩ := State.reopened_fields s backendChoice outcome
  obtain ⟨log, device⟩ := State.reopened_handles s backendChoice outcome
  have absent : (s.reopened backendChoice outcome).backendHandle = none := by
    rw [formed.unloaded.1] at idle
    simpa [State.isLoaded] using idle
  have safe : Always HandlesCurrent (s.reopened backendChoice outcome).calls :=
    loadLibrary_safe (s := { s.unloadActiveBackend with currentBackendChoice := backendChoice })
      owned.unload_safe backendChoice outcome
  cases found : outcome.table backendChoice with
  | none =>
      rw [found] at table
      have same : (s.reopened backendChoice outcome).createHandles outcome =
          s.reopened backendChoice outcome := by simp [State.createHandles, table]
      rw [same]
      exact ⟨safe, by simp [absent], by simp [table], by simp [table]⟩
  | some qnn =>
      obtain ⟨logged, opened⟩ := replaces qnn found
      rw [← log] at logged
      rw [← device] at opened
      exact createHandles_known (table.trans found) safe logged opened absent

theorem Owned.loadBackend (owned : Owned s) (formed : s.WellFormed) {backendChoice : Int}
    {outcome : LoadOutcome} (replaces : LoadReplaces s backendChoice outcome) :
    Owned (s.loadBackend backendChoice outcome) := by
  obtain ⟨_, cache, _, kept⟩ := State.loadBackend_correct formed backendChoice outcome
  cases same : s.serves backendChoice with
  | true =>
      rw [State.loadBackend_serves s outcome same]
      exact owned
  | false =>
      have known := owned.reopened_known formed (replaces.resolve_left (by simp [same]))
      obtain ⟨_, later, _⟩ := State.reopened_fields s backendChoice outcome
      obtain ⟨_, loads, _⟩ :=
        State.createHandles_fields (s.reopened backendChoice outcome) outcome
      have reload := State.loadBackend_reopened s outcome same
      have older : s.loadCount < (s.loadBackend backendChoice outcome).loadCount := by
        rw [reload]
        change s.loadCount < ((s.reopened backendChoice outcome).createHandles outcome).loadCount
        rw [loads]
        exact later
      rw [State.retained, same] at cache
      refine ⟨?_, ?_, ?_, ?_, ?_, ?_⟩
      · rw [reload]
        exact ⟨known.safe, known.backend, known.device, known.log⟩
      · simp [cache]
      · simp [cache]
      · -- A graph of an earlier load has an earlier context, or none and no graph.
        intro _ entry member now
        rw [kept.globalDynamicFcGraphs] at member
        cases context : entry.2.contextHandle with
        | none =>
            obtain ⟨graph, invalid⟩ := owned.bare entry member context
            exact ⟨by simp [context], by simp [graph], by simp [invalid]⟩
        | some handle =>
            have before := owned.loaded entry member handle context
            have equal := now handle context
            omega
      · rw [kept.globalDynamicFcGraphs]
        exact fun entry member handle context =>
          (owned.loaded entry member handle context).trans older.le
      · rw [kept.globalDynamicFcGraphs]
        exact owned.bare

theorem Owned.unload (owned : Owned s) (formed : s.WellFormed) : Owned s.unloadActiveBackend := by
  have unloaded := State.unloadActiveBackend_unloaded s
  obtain ⟨empty, clear⟩ := formed.unloaded
  have absent : s.unloadActiveBackend.backendHandle = none := by simpa [State.isLoaded] using empty
  refine ⟨⟨owned.unload_safe, ?_, ?_, ?_⟩, ?_, ?_, ?_, ?_, ?_⟩
  · simp [absent]
  · simp [unloaded.interface]
  · simp [unloaded.interface]
  · simp [clear]
  · simp [clear]
  · simp [unloaded.interface]
  · rw [unloaded.globalDynamicFcGraphs, unloaded.loadCount]
    exact owned.loaded
  · rw [unloaded.globalDynamicFcGraphs]
    exact owned.bare

end Reload

def TemporaryCreated (useStaticWeights : Bool) (outcome : ExecuteOutcome) : Prop :=
  useStaticWeights = true → outcome.temporary ≠ .noContext ∧ outcome.temporary ≠ .noGraph

-- The request comes across no handle of an instance that is gone, and of none that is missing.
def KeepsHandles (s : State) : Request → Prop
  | .loadBackend backendChoice outcome | .initializeNpublas backendChoice _ outcome =>
      LoadReplaces s backendChoice outcome
  | .getOrCreateGraph .. => s.interface.isSome → s.isLoaded = true
  | .execute key useStaticWeights outcome =>
      ∀ graph, s.graphCache.lookup key = some graph → graph.isValid = true →
        TemporaryCreated useStaticWeights outcome
  | .matmul M K N backendChoice useStaticWeights outcome =>
      LoadReplaces s backendChoice outcome.load ∧
        (s.loadSucceeds backendChoice outcome.load = true →
          State.served (s.retained backendChoice) (graphKey M K N) outcome.graph = true →
            TemporaryCreated useStaticWeights outcome.execute)
  | .matmulTiled M K N splits backendChoice outcome =>
      LoadReplaces s backendChoice outcome.load ∧
        (s.loadSucceeds backendChoice outcome.load = true →
          ∀ graph, s.globalDynamicFcGraphs.lookup
              (graphKey (M / splits.m) (K / splits.k) (N / splits.n)) = some graph →
            ∀ handle, graph.contextHandle = some handle →
              s.serves backendChoice = true ∧ handle.library = s.loadCount)
  | .unloadActiveBackend => True

theorem Owned.step {s next : State} {request : Request} (owned : Owned s) (formed : s.WellFormed)
    (keeps : KeepsHandles s request) (moved : step s request = some next) : Owned next := by
  cases request with
  | loadBackend backendChoice outcome =>
      cases moved
      exact owned.loadBackend formed keeps
  | initializeNpublas backendChoice quiet outcome =>
      cases moved
      exact (owned.loadBackend formed keeps).diagnostics quiet
  | getOrCreateGraph M K N useStaticWeights staticWeightsPtr outcome =>
      obtain ⟨⟨t, graph⟩, returned, rfl⟩ := Option.map_eq_some_iff.mp moved
      exact (owned.getOrCreateGraph formed keeps returned).1
  | execute key useStaticWeights outcome =>
      obtain rfl | ⟨graph, found, valid, rfl⟩ := step_execute_cases moved
      · exact owned
      · have ready : s.isLoaded = true := owned.used (by
          intro empty
          rw [empty] at found
          cases found)
        exact owned.execute formed ready (owned.cached _ (mem_of_lookup found)) valid
          (keeps graph found valid)
  | matmul M K N backendChoice useStaticWeights outcome =>
      obtain ⟨replaces, created⟩ := keeps
      have loaded := owned.loadBackend formed replaces
      obtain ⟨loads, _, after, _⟩ := State.loadBackend_correct formed backendChoice outcome.load
      obtain ⟨⟨t, C⟩, returned, rfl⟩ := Option.map_eq_some_iff.mp moved
      obtain ⟨ready, u, graph, built, ran⟩ | ⟨_, rfl⟩ := State.matmulInt8_cases returned
      · obtain ⟨kept, entry⟩ := loaded.getOrCreateGraph after (fun _ => ready) built
        obtain ⟨_, _, served, same⟩ := getOrCreateGraph_served formed M K N backendChoice
          useStaticWeights outcome.load outcome.graph ready
        obtain ⟨rfl, rfl⟩ := Prod.mk.inj (Option.some.inj (served.symm.trans built))
        obtain ⟨valid, rfl⟩ | ⟨_, rfl⟩ := ran
        · have backend := State.getOrCreateGraph_sameBackend built
          apply kept.execute (after.getOrCreateGraph built) _ entry valid
          · exact created (loads ▸ ready) (same ▸ valid)
          · rw [State.isLoaded, backend.backendHandle]
            exact ready
        · exact kept
      · exact loaded.fetchModel M K N backendChoice outcome.model
  | matmulTiled M K N splits backendChoice outcome =>
      obtain ⟨replaces, current⟩ := keeps
      have loaded := owned.loadBackend formed replaces
      obtain ⟨loads, _, after, kept⟩ := State.loadBackend_correct formed backendChoice outcome.load
      obtain ⟨⟨t, C⟩, returned, rfl⟩ := Option.map_eq_some_iff.mp moved
      obtain ⟨ready, _, u, graph, found, ran⟩ | ⟨_, rfl⟩ := State.matmulTiled_cases returned
      · obtain ⟨built, entry⟩ := loaded.dynamicGraph after ready (by
          rw [kept.globalDynamicFcGraphs]
          intro graph found handle context
          obtain ⟨same, library⟩ := current (loads ▸ ready) graph found handle context
          rw [State.loadBackend_serves s outcome.load same]
          exact library) found
        obtain ⟨valid, rfl⟩ | ⟨_, rfl⟩ := ran
        · exact (built.executeRounds entry valid outcome.executed splits.k).1
        · exact built
      · exact loaded
  | unloadActiveBackend =>
      cases moved
      exact owned.unload formed

theorem owned_start (outcome : LoadOutcome) : Owned (start outcome) := by
  have formed := wellFormed_blank
  have blank : Owned State.blank := by
    refine ⟨⟨trivial, ?_, ?_, ?_⟩, ?_, ?_, ?_, ?_, ?_⟩ <;> simp [State.blank]
  have log : State.blank.leftoverLog = none := rfl
  have device : State.blank.leftoverDevice = none := rfl
  exact blank.loadBackend formed (Or.inr fun _ _ => ⟨by simp [log], by simp [device]⟩)

-- A run whose requests come across no handle of an instance that is gone passes none to QNN.
theorem handles_always_current {outcome : LoadOutcome} {requests : List Request} {last : State}
    (reached : Runs.after step (start outcome) requests = some last)
    (keeps : Runs.Along step KeepsHandles (start outcome) requests) :
    Always HandlesCurrent last.calls := by
  have kept : last.WellFormed ∧ Owned last := by
    apply Runs.after_invariant (I := fun s => s.WellFormed ∧ Owned s) _
      ⟨wellFormed_start outcome, owned_start outcome⟩ keeps reached
    rintro s request next ⟨formed, owned⟩ keep moved
    exact ⟨wellFormed_step formed moved, owned.step formed keep moved⟩
  exact kept.2.safe

theorem handles_always_current_switch :
    ∃ last, Runs.after step (start (loadsWith fullTable))
        [.matmul 1 1 1 1 true (matmulWith .finalized true), .loadBackend 2 (loadsWith fullTable),
          .matmulTiled 1 1 1 whole 2 (tiledWith .finalized true)] = some last ∧
      Always HandlesCurrent last.calls := by
  have reached : Runs.after step (start (loadsWith fullTable))
      [.matmul 1 1 1 1 true (matmulWith .finalized true), .loadBackend 2 (loadsWith fullTable),
        .matmulTiled 1 1 1 whole 2 (tiledWith .finalized true)] = some _ := rfl
  refine ⟨_, reached, handles_always_current reached ?_⟩
  refine ⟨⟨Or.inl rfl, fun _ _ _ => ⟨nofun, nofun⟩⟩, fun next moved => ⟨?_, fun later loads => ⟨?_,
    fun _ _ => trivial⟩⟩⟩
  · cases moved
    exact Or.inr fun _ _ => ⟨nofun, nofun⟩
  · cases moved
    cases loads
    exact ⟨Or.inl rfl, fun _ _ => nofun⟩

-- A tiled product, a switch of backend and the same product: the graph found was created through
-- the library closed in between, and is executed.
theorem stale_graph_executed :
    ∃ last, Runs.after step (start (loadsWith fullTable))
        [.matmulTiled 1 1 1 whole 1 (tiledWith .finalized true),
          .matmulTiled 1 1 1 whole 2 (tiledWith .finalized true)] = some last ∧
      ¬ Always HandlesCurrent last.calls := by
  refine ⟨_, rfl, ?_⟩
  rintro ⟨⟨handle, _, held⟩, _⟩
  -- Nothing since the second dlopen has made a graph.
  rcases held with made | ⟨_, made | ⟨_, made | ⟨_, made | ⟨_, made | ⟨kept, _⟩⟩⟩⟩⟩
  · exact made
  · exact made
  · exact made
  · exact made
  · exact made
  · exact kept (Or.inl trivial)

end NpuMatmul
