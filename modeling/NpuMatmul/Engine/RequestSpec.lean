import NpuMatmul.Engine.BackendSpec
import NpuMatmul.Engine.Requests

set_option autoImplicit false

namespace NpuMatmul

theorem weightsKey_none (M K N : Nat) (useStaticWeights : Bool) :
    weightsKey M K N useStaticWeights none = graphKey M K N := by
  cases useStaticWeights <;> rfl

theorem mem_of_lookup {α : Type} {cache : List (String × α)} {key : String} {value : α}
    (found : cache.lookup key = some value) : (key, value) ∈ cache := by
  obtain ⟨before, after, equal, _⟩ := List.lookup_eq_some_iff.mp found
  rw [equal]
  simp

namespace State

def served (cache : List (String × CachedGraph)) (key : String) (outcome : BuildOutcome) : Bool :=
  match cache.lookup key with
  | some graph => graph.isValid
  | none => decide (outcome = .finalized)

-- A miss in graphCache: the entry is cached whatever the creation comes to.
def cacheBuilt (s : State) (key : String) (M K N : Nat) (outcome : BuildOutcome) : State :=
  (s.buildGraph outcome).cache key (s.builtEntry M K N outcome)

def cacheFailed (s : State) (key : String) (M K N : Nat) (outcome : BuildOutcome) : State :=
  (s.cacheBuilt key M K N outcome).call (.contextFree (s.builtContext outcome))

section Cases

variable {s t : State} {M K N : Nat} {useStaticWeights : Bool} {staticWeightsPtr : Option Nat}
  {outcome : BuildOutcome} {graph : CachedGraph}

theorem getOrCreateGraph_hit
    (found : s.graphCache.lookup (weightsKey M K N useStaticWeights staticWeightsPtr) = some graph) :
    s.getOrCreateGraph M K N useStaticWeights staticWeightsPtr outcome =
      some (s.hit graph, graph) := by
  simp [getOrCreateGraph, found]

theorem getOrCreateGraph_miss (outcome : BuildOutcome)
    (missing : s.graphCache.lookup (weightsKey M K N useStaticWeights staticWeightsPtr) = none)
    (ready : s.interface.isSome) :
    s.getOrCreateGraph M K N useStaticWeights staticWeightsPtr outcome =
      some (if outcome = .finalized then
          (s.cacheBuilt (weightsKey M K N useStaticWeights staticWeightsPtr) M K N outcome,
            s.builtEntry M K N outcome)
        else
          (s.cacheFailed (weightsKey M K N useStaticWeights staticWeightsPtr) M K N outcome,
            dummyInvalid)) := by
  by_cases done : outcome = .finalized <;>
    simp [getOrCreateGraph, missing, ready, done, cacheBuilt, cacheFailed, builtEntry]

theorem getOrCreateGraph_cases
    (returned : s.getOrCreateGraph M K N useStaticWeights staticWeightsPtr outcome =
      some (t, graph)) :
    (s.graphCache.lookup (weightsKey M K N useStaticWeights staticWeightsPtr) = some graph ∧
        t = s.hit graph) ∨
      (s.graphCache.lookup (weightsKey M K N useStaticWeights staticWeightsPtr) = none ∧
        s.interface.isSome ∧
        ((outcome = .finalized ∧ graph = s.builtEntry M K N outcome ∧
            t = s.cacheBuilt (weightsKey M K N useStaticWeights staticWeightsPtr) M K N outcome) ∨
          (outcome ≠ .finalized ∧ graph = dummyInvalid ∧
            t = s.cacheFailed (weightsKey M K N useStaticWeights staticWeightsPtr) M K N
              outcome))) := by
  cases found : s.graphCache.lookup (weightsKey M K N useStaticWeights staticWeightsPtr) with
  | some cached =>
      rw [getOrCreateGraph_hit found] at returned
      cases returned
      exact Or.inl ⟨rfl, rfl⟩
  | none =>
      by_cases ready : s.interface.isSome
      · rw [getOrCreateGraph_miss outcome found ready] at returned
        by_cases done : outcome = .finalized
        · simp only [done, if_true] at returned
          cases returned
          exact Or.inr ⟨rfl, ready, Or.inl ⟨done, by rw [done], by rw [done]⟩⟩
        · simp only [done, if_false] at returned
          cases returned
          exact Or.inr ⟨rfl, ready, Or.inr ⟨done, rfl, rfl⟩⟩
      · simp [getOrCreateGraph, found, ready] at returned

end Cases

structure SameBackend (s t : State) : Prop where
  backendContainer : t.backendContainer = s.backendContainer
  backendHandle : t.backendHandle = s.backendHandle
  deviceHandle : t.deviceHandle = s.deviceHandle
  logHandle : t.logHandle = s.logHandle
  loadCount : t.loadCount = s.loadCount
  fallbacks : t.fallbacks = s.fallbacks

structure SameCaches (s t : State) : Prop where
  graphCache : t.graphCache = s.graphCache
  globalDynamicFcGraphs : t.globalDynamicFcGraphs = s.globalDynamicFcGraphs
  models : t.models = s.models

theorem getOrCreateGraph_sameBackend {s t : State} {M K N : Nat} {useStaticWeights : Bool}
    {staticWeightsPtr : Option Nat} {outcome : BuildOutcome} {graph : CachedGraph}
    (returned : s.getOrCreateGraph M K N useStaticWeights staticWeightsPtr outcome =
      some (t, graph)) : SameBackend s t := by
  obtain ⟨_, rfl⟩ | ⟨_, _, ⟨_, _, rfl⟩ | ⟨_, _, rfl⟩⟩ := getOrCreateGraph_cases returned
  all_goals constructor <;> simp [cacheFailed, cacheBuilt]

theorem getOrCreateGraph_others {s t : State} {M K N : Nat} {useStaticWeights : Bool}
    {staticWeightsPtr : Option Nat} {outcome : BuildOutcome} {graph : CachedGraph}
    (returned : s.getOrCreateGraph M K N useStaticWeights staticWeightsPtr outcome =
      some (t, graph)) :
    t.globalDynamicFcGraphs = s.globalDynamicFcGraphs ∧ t.models = s.models := by
  obtain ⟨_, rfl⟩ | ⟨_, _, ⟨_, _, rfl⟩ | ⟨_, _, rfl⟩⟩ := getOrCreateGraph_cases returned
  all_goals constructor <;> simp [cacheFailed, cacheBuilt]

theorem execute_same (s : State) (graph : CachedGraph) (useStaticWeights : Bool)
    (outcome : ExecuteOutcome) :
    SameBackend s (s.execute graph useStaticWeights outcome) ∧
      SameCaches s (s.execute graph useStaticWeights outcome) := by
  cases useStaticWeights <;> constructor <;> constructor <;> simp [execute]

theorem executeRounds_same (s : State) (graph : CachedGraph) (executed : Nat → Bool)
    (rounds : Nat) :
    SameBackend s (s.executeRounds graph executed rounds) ∧
      SameCaches s (s.executeRounds graph executed rounds) := by
  induction rounds with
  | zero => exact ⟨⟨rfl, rfl, rfl, rfl, rfl, rfl⟩, ⟨rfl, rfl, rfl⟩⟩
  | succ rounds ih =>
      obtain ⟨backend, caches⟩ := ih
      exact ⟨⟨backend.1, backend.2, backend.3, backend.4, backend.5, backend.6⟩,
        ⟨caches.1, caches.2, caches.3⟩⟩

theorem dynamicGraph_same (s : State) (M K N : Nat) (outcome : BuildOutcome) :
    SameBackend s (s.dynamicGraph M K N outcome).1 ∧
      (s.dynamicGraph M K N outcome).1.graphCache = s.graphCache ∧
      (s.dynamicGraph M K N outcome).1.models = s.models := by
  unfold dynamicGraph
  split <;> refine ⟨?_, by simp, by simp⟩ <;> constructor <;> simp

theorem fetchModel_fields (s : State) (M K N : Nat) (backendChoice : Int)
    (outcome : ModelOutcome) :
    ∃ models, (s.fetchModel M K N backendChoice outcome).1 =
      { s with models := models, fallbacks := s.fallbacks + 1 } := by
  unfold fetchModel
  dsimp only
  split
  · exact ⟨s.models, rfl⟩
  · exact ⟨_, rfl⟩

theorem performDiagnostics_same (s : State) (quiet : Bool) :
    SameBackend s (s.performDiagnosticsIfNeeded quiet) ∧
      SameCaches s (s.performDiagnosticsIfNeeded quiet) := by
  unfold performDiagnosticsIfNeeded
  split
  · exact ⟨⟨rfl, rfl, rfl, rfl, rfl, rfl⟩, ⟨rfl, rfl, rfl⟩⟩
  · dsimp only
    split
    · split <;> constructor <;> constructor <;> simp
    · exact ⟨⟨rfl, rfl, rfl, rfl, rfl, rfl⟩, ⟨rfl, rfl, rfl⟩⟩

theorem WellFormed.same {s t : State} (formed : s.WellFormed) (same : SameBackend s t)
    (cache : t.interface = none → t.graphCache = []) : t.WellFormed := by
  refine ⟨?_, cache⟩
  rw [interface, isLoaded, same.backendContainer, same.backendHandle]
  exact formed.loaded

theorem WellFormed.kept {s t : State} (formed : s.WellFormed)
    (same : SameBackend s t) (cache : t.graphCache = s.graphCache) : t.WellFormed := by
  apply formed.same same
  rw [interface, same.backendContainer, cache]
  exact formed.cached

theorem WellFormed.getOrCreateGraph {s t : State} (formed : s.WellFormed) {M K N : Nat}
    {useStaticWeights : Bool} {staticWeightsPtr : Option Nat} {outcome : BuildOutcome}
    {graph : CachedGraph}
    (returned : s.getOrCreateGraph M K N useStaticWeights staticWeightsPtr outcome =
      some (t, graph)) : t.WellFormed := by
  apply formed.same (getOrCreateGraph_sameBackend returned)
  intro idle
  obtain ⟨_, rfl⟩ | ⟨_, ready, ⟨_, _, rfl⟩ | ⟨_, _, rfl⟩⟩ := getOrCreateGraph_cases returned
  · exact formed.cached idle
  all_goals
    simp only [interface, cacheFailed, cacheBuilt, call_backendContainer, cache_backendContainer,
      buildGraph_backendContainer] at idle ready
    simp [idle] at ready

section Kernels

variable {s t : State} {M K N : Nat} {splits : Splits} {backendChoice : Int}
  {useStaticWeights : Bool} {C D : Nat → Cell}

theorem executed_cases {valid : Bool} {ran skipped : State} {written left : Nat → Cell}
    (returned : (if valid = true then some (ran, written) else some (skipped, left)) =
      some (t, D)) :
    (valid = true ∧ t = ran) ∨ (valid = false ∧ t = skipped) := by
  cases valid with
  | true =>
      cases returned
      exact Or.inl ⟨rfl, rfl⟩
  | false =>
      cases returned
      exact Or.inr ⟨rfl, rfl⟩

theorem matmulInt8_cases {outcome : MatmulOutcome}
    (returned : s.matmulInt8 M K N backendChoice useStaticWeights outcome C = some (t, D)) :
    ((s.loadBackend backendChoice outcome.load).isLoaded = true ∧
      ∃ u graph, (s.loadBackend backendChoice outcome.load).getOrCreateGraph M K N
          useStaticWeights none outcome.graph = some (u, graph) ∧
        ((graph.isValid = true ∧ t = u.execute graph useStaticWeights outcome.execute) ∨
          (graph.isValid = false ∧ t = u))) ∨
    ((s.loadBackend backendChoice outcome.load).isLoaded = false ∧
      t = ((s.loadBackend backendChoice outcome.load).fetchModel M K N backendChoice
        outcome.model).1) := by
  simp only [matmulInt8] at returned
  split at returned
  case isTrue ready =>
    left
    refine ⟨ready, ?_⟩
    split at returned
    · cases returned
    · rename_i u graph created
      refine ⟨u, graph, created, ?_⟩
      by_cases inner : K = 0
      · rw [if_pos inner] at returned
        split at returned
        case isTrue => cases returned
        case isFalse invalid =>
          cases returned
          exact Or.inr ⟨by simpa using invalid, rfl⟩
      · rw [if_neg inner] at returned
        exact executed_cases returned
  case isFalse idle =>
    right
    split at returned <;> cases returned
    exact ⟨by simpa using idle, rfl⟩

theorem matmulTiled_cases {outcome : TiledOutcome}
    (returned : s.matmulTiled M K N splits backendChoice outcome C = some (t, D)) :
    ((s.loadBackend backendChoice outcome.load).isLoaded = true ∧
      ¬ (splits.m = 0 ∨ splits.k = 0 ∨ splits.n = 0 ∨ K = 0) ∧
      ∃ u graph, (s.loadBackend backendChoice outcome.load).dynamicGraph (M / splits.m)
          (K / splits.k) (N / splits.n) outcome.graph = (u, graph) ∧
        ((graph.isValid = true ∧ t = u.executeRounds graph outcome.executed splits.k) ∨
          (graph.isValid = false ∧ t = u))) ∨
    ((s.loadBackend backendChoice outcome.load).isLoaded = false ∧
      t = s.loadBackend backendChoice outcome.load) := by
  simp only [matmulTiled] at returned
  split at returned
  case isTrue ready =>
    left
    split at returned
    · cases returned
    case isFalse divisors =>
      rcases found : (s.loadBackend backendChoice outcome.load).dynamicGraph (M / splits.m)
        (K / splits.k) (N / splits.n) outcome.graph with ⟨u, graph⟩
      rw [found] at returned
      refine ⟨ready, divisors, u, graph, rfl, ?_⟩
      exact executed_cases returned
  case isFalse idle =>
    right
    cases returned
    exact ⟨by simpa using idle, rfl⟩

theorem dynamicGraph_cases {outcome : BuildOutcome} {graph : CachedGraph}
    (returned : s.dynamicGraph M K N outcome = (t, graph)) :
    (s.globalDynamicFcGraphs.lookup (graphKey M K N) = some graph ∧ t = s.hit graph) ∨
      (s.globalDynamicFcGraphs.lookup (graphKey M K N) = none ∧
        graph = s.builtEntry M K N outcome ∧
        t = (s.buildGraph outcome).cacheDynamic (graphKey M K N)
          (s.builtEntry M K N outcome)) := by
  unfold dynamicGraph at returned
  split at returned <;> cases returned
  case h_1 found => exact Or.inl ⟨found, rfl⟩
  case h_2 missing => exact Or.inr ⟨missing, rfl, rfl⟩

theorem WellFormed.matmulInt8 (formed : s.WellFormed) {outcome : MatmulOutcome}
    (returned : s.matmulInt8 M K N backendChoice useStaticWeights outcome C = some (t, D)) :
    t.WellFormed := by
  obtain ⟨_, _, loaded, _⟩ := loadBackend_correct formed backendChoice outcome.load
  obtain ⟨_, u, graph, created, ⟨_, rfl⟩ | ⟨_, rfl⟩⟩ | ⟨_, rfl⟩ := matmulInt8_cases returned
  · have same := execute_same u graph useStaticWeights outcome.execute
    exact (loaded.getOrCreateGraph created).kept same.1 same.2.graphCache
  · exact loaded.getOrCreateGraph created
  · obtain ⟨models, fetched⟩ := fetchModel_fields (s.loadBackend backendChoice outcome.load) M K N
      backendChoice outcome.model
    rw [fetched]
    exact ⟨loaded.loaded, loaded.cached⟩

theorem WellFormed.matmulTiled (formed : s.WellFormed) {outcome : TiledOutcome}
    (returned : s.matmulTiled M K N splits backendChoice outcome C = some (t, D)) :
    t.WellFormed := by
  obtain ⟨_, _, loaded, _⟩ := loadBackend_correct formed backendChoice outcome.load
  obtain ⟨_, _, u, graph, found, ran⟩ | ⟨_, rfl⟩ := matmulTiled_cases returned
  · have same := dynamicGraph_same (s.loadBackend backendChoice outcome.load) (M / splits.m)
      (K / splits.k) (N / splits.n) outcome.graph
    rw [found] at same
    have served := loaded.kept same.1 same.2.1
    obtain ⟨_, rfl⟩ | ⟨_, rfl⟩ := ran
    · have rounds := executeRounds_same u graph outcome.executed splits.k
      exact served.kept rounds.1 rounds.2.graphCache
    · exact served
  · exact loaded

end Kernels

end State

theorem getOrCreateGraph_served {s : State} (formed : s.WellFormed) (M K N : Nat)
    (backendChoice : Int) (useStaticWeights : Bool) (load : LoadOutcome) (build : BuildOutcome)
    (ready : (s.loadBackend backendChoice load).isLoaded = true) :
    ∃ t graph, (s.loadBackend backendChoice load).getOrCreateGraph M K N useStaticWeights none
        build = some (t, graph) ∧
      graph.isValid = State.served (s.retained backendChoice) (graphKey M K N) build := by
  obtain ⟨_, cache, loaded, _⟩ := State.loadBackend_correct formed backendChoice load
  have key := weightsKey_none M K N useStaticWeights
  unfold State.served
  rw [← cache, ← key]
  cases found : (s.loadBackend backendChoice load).graphCache.lookup
      (weightsKey M K N useStaticWeights none) with
  | some graph => exact ⟨_, graph, State.getOrCreateGraph_hit found, rfl⟩
  | none =>
      have miss := State.getOrCreateGraph_miss build found (loaded.loaded ready)
      by_cases done : build = .finalized
      · rw [if_pos done] at miss
        exact ⟨_, _, miss, by simp [State.builtEntry, done]⟩
      · rw [if_neg done] at miss
        exact ⟨_, _, miss, by simp [State.dummyInvalid, done]⟩

def State.fetchedModel (s : State) (M K N : Nat) (backendChoice : Int) (outcome : ModelOutcome) :
    Model :=
  (s.findModel M K N backendChoice).getD (createModel M K N backendChoice outcome)

theorem fetchModel_fetched (s : State) (M K N : Nat) (backendChoice : Int)
    (build : ModelOutcome) :
    (s.fetchModel M K N backendChoice build).2 = s.fetchedModel M K N backendChoice build := by
  unfold State.fetchModel State.fetchedModel State.findModel
  dsimp only
  split <;> simp [*]

theorem fetchedModel_loadBackend {s : State} (formed : s.WellFormed) (M K N : Nat)
    (backendChoice : Int) (load : LoadOutcome) (build : ModelOutcome) :
    (s.loadBackend backendChoice load).fetchedModel M K N backendChoice build =
      s.fetchedModel M K N backendChoice build := by
  obtain ⟨_, _, _, kept⟩ := State.loadBackend_correct formed backendChoice load
  simp [State.fetchedModel, State.findModel, kept.models]

-- The call of matmul_int8 gets as far as its first FixedPointBlock.
def Quantises (s : State) (M K N : Nat) (backendChoice : Int) (outcome : MatmulOutcome) : Prop :=
  if s.loadSucceeds backendChoice outcome.load then
    State.served (s.retained backendChoice) (graphKey M K N) outcome.graph = true
  else
    (s.fetchedModel M K N backendChoice outcome.model).interpreter = true ∧ backendChoice ≠ 3

theorem matmulInt8_none_iff {s : State} (formed : s.WellFormed) (M K N : Nat)
    (backendChoice : Int) (useStaticWeights : Bool) (outcome : MatmulOutcome) (C : Nat → Cell) :
    s.matmulInt8 M K N backendChoice useStaticWeights outcome C = none ↔
      Quantises s M K N backendChoice outcome ∧ K = 0 := by
  obtain ⟨loads, _⟩ := State.loadBackend_correct formed backendChoice outcome.load
  unfold Quantises State.matmulInt8
  dsimp only
  by_cases ready : s.loadSucceeds backendChoice outcome.load = true
  · rw [ready] at loads
    obtain ⟨t, graph, created, valid⟩ := getOrCreateGraph_served formed M K N backendChoice
      useStaticWeights outcome.load outcome.graph loads
    rw [if_pos loads, if_pos ready, created, ← valid]
    dsimp only
    by_cases usable : graph.isValid = true <;> by_cases inner : K = 0 <;> simp [usable, inner]
  · have idle : ¬ (s.loadBackend backendChoice outcome.load).isLoaded = true := by
      rw [loads]
      exact ready
    rw [if_neg idle, if_neg ready, fetchModel_fetched, fetchedModel_loadBackend formed]
    by_cases crashes : (s.fetchedModel M K N backendChoice outcome.model).interpreter = true ∧
        backendChoice ≠ 3 ∧ K = 0
    · rw [if_pos crashes]
      exact iff_of_true rfl ⟨⟨crashes.1, crashes.2.1⟩, crashes.2.2⟩
    · rw [if_neg crashes]
      exact iff_of_false nofun fun met => crashes ⟨met.1.1, met.1.2, met.2⟩

theorem step_execute_cases {s next : State} {key : String} {useStaticWeights : Bool}
    {outcome : ExecuteOutcome}
    (moved : step s (.execute key useStaticWeights outcome) = some next) :
    next = s ∨ ∃ graph, s.graphCache.lookup key = some graph ∧ graph.isValid = true ∧
      next = s.execute graph useStaticWeights outcome := by
  simp only [step] at moved
  split at moved
  case h_1 graph found =>
    split at moved <;> cases moved
    case isTrue valid => exact Or.inr ⟨graph, found, valid, rfl⟩
    case isFalse => exact Or.inl rfl
  case h_2 =>
    cases moved
    exact Or.inl rfl

theorem wellFormed_step {s next : State} {request : Request} (formed : s.WellFormed)
    (moved : step s request = some next) : next.WellFormed := by
  cases request with
  | loadBackend backendChoice outcome =>
      cases moved
      exact (State.loadBackend_correct formed backendChoice outcome).2.2.1
  | initializeNpublas backendChoice quiet outcome =>
      cases moved
      have same := State.performDiagnostics_same (s.loadBackend backendChoice outcome) quiet
      exact (State.loadBackend_correct formed backendChoice outcome).2.2.1.kept same.1
        same.2.graphCache
  | getOrCreateGraph M K N useStaticWeights staticWeightsPtr outcome =>
      obtain ⟨⟨t, graph⟩, returned, rfl⟩ := Option.map_eq_some_iff.mp moved
      exact formed.getOrCreateGraph returned
  | execute key useStaticWeights outcome =>
      obtain rfl | ⟨graph, _, _, rfl⟩ := step_execute_cases moved
      · exact formed
      · have same := State.execute_same s graph useStaticWeights outcome
        exact formed.kept same.1 same.2.graphCache
  | matmul M K N backendChoice useStaticWeights outcome =>
      obtain ⟨⟨t, C⟩, returned, rfl⟩ := Option.map_eq_some_iff.mp moved
      exact formed.matmulInt8 returned
  | matmulTiled M K N splits backendChoice outcome =>
      obtain ⟨⟨t, C⟩, returned, rfl⟩ := Option.map_eq_some_iff.mp moved
      exact formed.matmulTiled returned
  | unloadActiveBackend =>
      cases moved
      obtain ⟨empty, clear⟩ := formed.unloaded
      refine ⟨?_, fun _ => clear⟩
      simp [empty]

theorem wellFormed_blank : State.blank.WellFormed :=
  ⟨by simp [State.blank, State.isLoaded], fun _ => rfl⟩

theorem wellFormed_start (outcome : LoadOutcome) : (start outcome).WellFormed :=
  (State.loadBackend_correct wellFormed_blank 1 outcome).2.2.1

theorem wellFormed_after {outcome : LoadOutcome} {requests : List Request} {s : State}
    (reached : Runs.after step (start outcome) requests = some s) : s.WellFormed :=
  Runs.after_kept (fun _ _ _ formed moved => wellFormed_step formed moved)
    (wellFormed_start outcome) reached

end NpuMatmul
