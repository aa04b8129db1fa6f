import NpuMatmul.Engine.GraphKeys
import NpuMatmul.Engine.RequestSpec

set_option autoImplicit false

namespace NpuMatmul

def graphsFound (s : State) : Request → List (String × CachedGraph)
  | .matmul _ _ _ backendChoice _ _ => s.retained backendChoice
  | .matmulTiled _ _ _ _ backendChoice _ => s.retained backendChoice
  | _ => s.graphCache

-- The request creates an entry for one of the three caches, and the creation fails.
def CreationFails (s : State) : Request → Prop
  | .getOrCreateGraph M K N useStaticWeights staticWeightsPtr outcome =>
      s.graphCache.lookup (weightsKey M K N useStaticWeights staticWeightsPtr) = none ∧
        s.interface.isSome ∧ outcome ≠ .finalized
  | .matmul M K N backendChoice _ outcome =>
      if s.loadSucceeds backendChoice outcome.load then
        (s.retained backendChoice).lookup (graphKey M K N) = none ∧ outcome.graph ≠ .finalized
      else
        s.findModel M K N backendChoice = none ∧
          (createModel M K N backendChoice outcome.model).interpreter = false
  | .matmulTiled M K N splits backendChoice outcome =>
      s.loadSucceeds backendChoice outcome.load = true ∧
        ¬ (splits.m = 0 ∨ splits.k = 0 ∨ splits.n = 0 ∨ K = 0) ∧
        s.globalDynamicFcGraphs.lookup
          (graphKey (M / splits.m) (K / splits.k) (N / splits.n)) = none ∧
        outcome.graph ≠ .finalized
  | _ => False

-- The request caches a graph under a key that names its weights, and the key that hasGraph looks up
-- for the shape is not there.
def HidesGraph (s : State) : Request → Prop
  | .getOrCreateGraph M K N useStaticWeights staticWeightsPtr outcome =>
      s.graphCache.lookup (weightsKey M K N useStaticWeights staticWeightsPtr) = none ∧
        s.interface.isSome ∧ outcome = .finalized ∧
        (namedAddress useStaticWeights staticWeightsPtr).isSome ∧
        s.graphCache.lookup (graphKey M K N) = none
  | _ => False

def Atomic (s : State) (request : Request) : Prop :=
  CreationFails s request → ∀ next, step s request = some next →
    next.graphCache = graphsFound s request ∧
      next.globalDynamicFcGraphs = s.globalDynamicFcGraphs ∧ next.models = s.models

def HasGraphExact (s : State) : Prop :=
  ∀ M K N, s.hasGraph M K N = true ↔
    ∃ entry ∈ s.graphCache, entry.2.isValid = true ∧
      entry.2.M = M ∧ entry.2.K = K ∧ entry.2.N = N

structure Retries (s : State) : Prop where
  graph : ∀ M K N useStaticWeights staticWeightsPtr t graph,
    s.getOrCreateGraph M K N useStaticWeights staticWeightsPtr .finalized = some (t, graph) →
      graph.isValid = true
  dynamic : ∀ M K N, (s.dynamicGraph M K N .finalized).2.isValid = true
  model : ∀ M K N backendChoice outcome,
    (createModel M K N backendChoice outcome).interpreter = true →
      (s.fetchModel M K N backendChoice outcome).2.interpreter = true

def CachesHold (s : State) (request : Request) : Prop :=
  Atomic s request ∧
    ∀ next, step s request = some next → HasGraphExact next ∧ Retries next

-- No cache holds the entry of a failed creation, graphs are keyed by their shape, and one whose key
-- names its weights stands beside the graph under the plain key.
structure Sound (s : State) : Prop where
  formed : s.WellFormed
  graphs : ∀ entry ∈ s.graphCache, entry.2.isValid = true ∧
    ∃ useStaticWeights staticWeightsPtr,
      entry.1 = weightsKey entry.2.M entry.2.K entry.2.N useStaticWeights staticWeightsPtr
  plain : ∀ entry ∈ s.graphCache, s.hasGraph entry.2.M entry.2.K entry.2.N = true
  dynamic : ∀ entry ∈ s.globalDynamicFcGraphs, entry.2.isValid = true
  models : ∀ model ∈ s.models, model.interpreter = true

theorem State.hasGraph_cacheBuilt {s : State} {key : String} {M K N m k n : Nat}
    {outcome : BuildOutcome} :
    (s.cacheBuilt key m k n outcome).hasGraph M K N = true ↔
      graphKey M K N = key ∨ s.hasGraph M K N = true := by
  simp only [State.hasGraph, State.cacheBuilt, State.cache_graphCache,
    State.buildGraph_graphCache, List.lookup_cons]
  by_cases same : graphKey M K N = key
  · simp [same]
  · rw [beq_eq_false_iff_ne.mpr same]
    simp [same]

section Sound

variable {s : State} (sound : Sound s)

include sound in
theorem Sound.hasGraphExact : HasGraphExact s := by
  intro M K N
  constructor
  · intro present
    obtain ⟨graph, found⟩ := Option.isSome_iff_exists.mp present
    obtain ⟨valid, useStaticWeights, staticWeightsPtr, key⟩ := sound.graphs _ (mem_of_lookup found)
    have shape := weightsKey_shape key.symm
    exact ⟨_, mem_of_lookup found, valid, shape.1, shape.2.1, shape.2.2⟩
  · rintro ⟨entry, member, _, rfl, rfl, rfl⟩
    exact sound.plain entry member

include sound in
theorem Sound.retries : Retries s := by
  constructor
  · intro M K N useStaticWeights staticWeightsPtr t graph returned
    obtain ⟨found, _⟩ | ⟨_, _, ⟨_, rfl, _⟩ | ⟨failed, _⟩⟩ :=
      State.getOrCreateGraph_cases returned
    · exact (sound.graphs _ (mem_of_lookup found)).1
    · rfl
    · exact absurd rfl failed
  · intro M K N
    unfold State.dynamicGraph
    split
    case h_1 graph found => exact sound.dynamic _ (mem_of_lookup found)
    case h_2 => rfl
  · intro M K N backendChoice outcome created
    unfold State.fetchModel
    dsimp only
    split
    case h_1 model found => exact sound.models _ (List.mem_of_find?_eq_some found)
    case h_2 => exact created

include sound in
theorem Sound.kept {t : State} (formed : t.WellFormed) (caches : State.SameCaches s t) :
    Sound t := by
  constructor
  · exact formed
  · rw [caches.graphCache]
    exact sound.graphs
  · unfold State.hasGraph
    rw [caches.graphCache]
    exact sound.plain
  · rw [caches.globalDynamicFcGraphs]
    exact sound.dynamic
  · rw [caches.models]
    exact sound.models

include sound in
theorem Sound.load (backendChoice : Int) (outcome : LoadOutcome) :
    Sound (s.loadBackend backendChoice outcome) := by
  obtain ⟨_, cache, formed, kept⟩ := State.loadBackend_correct sound.formed backendChoice outcome
  constructor
  · exact formed
  · rw [cache, State.retained]
    split
    · exact sound.graphs
    · simp
  · unfold State.hasGraph
    rw [cache, State.retained]
    split
    · exact sound.plain
    · simp
  · rw [kept.globalDynamicFcGraphs]
    exact sound.dynamic
  · rw [kept.models]
    exact sound.models

include sound in
theorem Sound.graph {M K N : Nat} {useStaticWeights : Bool} {staticWeightsPtr : Option Nat}
    {outcome : BuildOutcome} {t : State} {graph : CachedGraph}
    (returned : s.getOrCreateGraph M K N useStaticWeights staticWeightsPtr outcome =
      some (t, graph))
    (succeeds : s.graphCache.lookup (weightsKey M K N useStaticWeights staticWeightsPtr) = none →
      outcome = .finalized)
    (plain : s.graphCache.lookup (weightsKey M K N useStaticWeights staticWeightsPtr) = none →
      (namedAddress useStaticWeights staticWeightsPtr).isSome → s.hasGraph M K N = true) :
    Sound t := by
  have formed := sound.formed.getOrCreateGraph returned
  have others := State.getOrCreateGraph_others returned
  constructor
  · exact formed
  · obtain ⟨_, rfl⟩ | ⟨missing, _, ⟨done, _, rfl⟩ | ⟨failed, _⟩⟩ :=
      State.getOrCreateGraph_cases returned
    · exact sound.graphs
    · intro entry member
      simp only [State.cacheBuilt, State.cache_graphCache, State.buildGraph_graphCache,
        List.mem_cons] at member
      obtain rfl | earlier := member
      · exact ⟨by simp [State.builtEntry, done], useStaticWeights, staticWeightsPtr, rfl⟩
      · exact sound.graphs entry earlier
    · exact absurd (succeeds missing) failed
  · obtain ⟨_, rfl⟩ | ⟨missing, _, ⟨_, _, rfl⟩ | ⟨failed, _⟩⟩ :=
      State.getOrCreateGraph_cases returned
    · exact sound.plain
    · intro entry member
      simp only [State.cacheBuilt, State.cache_graphCache, State.buildGraph_graphCache,
        List.mem_cons] at member
      apply State.hasGraph_cacheBuilt.mpr
      obtain rfl | earlier := member
      · by_cases named : (namedAddress useStaticWeights staticWeightsPtr).isSome
        · exact Or.inr (plain missing named)
        · exact Or.inl (weightsKey_eq_graphKey.mpr (by simpa using named)).symm
      · exact Or.inr (sound.plain entry earlier)
    · exact absurd (succeeds missing) failed
  · rw [others.1]
    exact sound.dynamic
  · rw [others.2]
    exact sound.models

include sound in
theorem Sound.dynamicGraph {M K N : Nat} {outcome : BuildOutcome} {t : State} {graph : CachedGraph}
    (returned : s.dynamicGraph M K N outcome = (t, graph))
    (succeeds : s.globalDynamicFcGraphs.lookup (graphKey M K N) = none → outcome = .finalized) :
    Sound t := by
  have same := State.dynamicGraph_same s M K N outcome
  rw [returned] at same
  constructor
  · exact sound.formed.kept same.1 same.2.1
  · rw [same.2.1]
    exact sound.graphs
  · unfold State.hasGraph
    rw [same.2.1]
    exact sound.plain
  · obtain ⟨_, rfl⟩ | ⟨missing, _, rfl⟩ := State.dynamicGraph_cases returned
    · exact sound.dynamic
    · intro entry member
      simp only [State.cacheDynamic_globalDynamicFcGraphs, State.buildGraph_globalDynamicFcGraphs,
        List.mem_cons] at member
      obtain rfl | earlier := member
      · simp [State.builtEntry, succeeds missing]
      · exact sound.dynamic entry earlier
  · rw [same.2.2]
    exact sound.models

include sound in
theorem Sound.fetchModel (M K N : Nat) (backendChoice : Int) (outcome : ModelOutcome)
    (succeeds : s.findModel M K N backendChoice = none →
      (createModel M K N backendChoice outcome).interpreter = true) :
    Sound (s.fetchModel M K N backendChoice outcome).1 := by
  unfold State.fetchModel
  dsimp only
  split
  case h_1 =>
    exact ⟨⟨sound.formed.loaded, sound.formed.cached⟩, sound.graphs, sound.plain, sound.dynamic,
      sound.models⟩
  case h_2 missing =>
    refine ⟨⟨sound.formed.loaded, sound.formed.cached⟩, sound.graphs, sound.plain, sound.dynamic,
      ?_⟩
    intro model member
    obtain earlier | new := List.mem_append.mp member
    · exact sound.models model earlier
    · rw [List.mem_singleton.mp new]
      exact succeeds missing

include sound in
theorem Sound.matmul {M K N : Nat} {backendChoice : Int} {useStaticWeights : Bool}
    {outcome : MatmulOutcome} {next : State}
    (succeeds : ¬ CreationFails s (.matmul M K N backendChoice useStaticWeights outcome))
    (moved : NpuMatmul.step s (.matmul M K N backendChoice useStaticWeights outcome) =
      some next) : Sound next := by
  have formed := wellFormed_step sound.formed moved
  have loaded := sound.load backendChoice outcome.load
  obtain ⟨loads, cache, _, kept⟩ :=
    State.loadBackend_correct sound.formed backendChoice outcome.load
  obtain ⟨⟨t, C⟩, returned, rfl⟩ := Option.map_eq_some_iff.mp moved
  obtain ⟨ready, u, graph, created, ran⟩ | ⟨idle, rfl⟩ := State.matmulInt8_cases returned
  · have served : Sound u := by
      apply loaded.graph created
      · rw [cache, weightsKey_none]
        intro missing
        by_contra failed
        apply succeeds
        rw [CreationFails, if_pos (loads ▸ ready)]
        exact ⟨missing, failed⟩
      · intro _ named
        simp [namedAddress] at named
    obtain ⟨_, rfl⟩ | ⟨_, rfl⟩ := ran
    · exact served.kept formed (State.execute_same u graph useStaticWeights outcome.execute).2
    · exact served
  · apply loaded.fetchModel
    rw [State.findModel, kept.models]
    intro missing
    by_contra failed
    apply succeeds
    have refused : ¬ s.loadSucceeds backendChoice outcome.load = true := by
      rw [← loads, idle]
      exact Bool.false_ne_true
    rw [CreationFails, if_neg refused]
    exact ⟨missing, by simpa using failed⟩

include sound in
theorem Sound.matmulTiled {M K N : Nat} {splits : Splits} {backendChoice : Int}
    {outcome : TiledOutcome} {next : State}
    (succeeds : ¬ CreationFails s (.matmulTiled M K N splits backendChoice outcome))
    (moved : NpuMatmul.step s (.matmulTiled M K N splits backendChoice outcome) = some next) :
    Sound next := by
  have formed := wellFormed_step sound.formed moved
  have loaded := sound.load backendChoice outcome.load
  obtain ⟨loads, _, _, kept⟩ := State.loadBackend_correct sound.formed backendChoice outcome.load
  obtain ⟨⟨t, C⟩, returned, rfl⟩ := Option.map_eq_some_iff.mp moved
  obtain ⟨ready, divisors, u, graph, found, ran⟩ | ⟨_, rfl⟩ := State.matmulTiled_cases returned
  · have served : Sound u := by
      apply loaded.dynamicGraph found
      rw [kept.globalDynamicFcGraphs]
      intro missing
      by_contra failed
      exact succeeds ⟨loads ▸ ready, divisors, missing, failed⟩
    obtain ⟨_, rfl⟩ | ⟨_, rfl⟩ := ran
    · exact served.kept formed (State.executeRounds_same u graph outcome.executed splits.k).2
    · exact served
  · exact loaded

include sound in
theorem Sound.unload : Sound s.unloadActiveBackend := by
  have unloaded := State.unloadActiveBackend_unloaded s
  have formed : s.unloadActiveBackend.WellFormed := wellFormed_step sound.formed
    (show NpuMatmul.step s .unloadActiveBackend = some _ from rfl)
  refine ⟨formed, ?_, ?_, ?_, ?_⟩
  · rw [sound.formed.unloaded.2]
    simp
  · rw [sound.formed.unloaded.2]
    simp
  · rw [unloaded.globalDynamicFcGraphs]
    exact sound.dynamic
  · rw [unloaded.models]
    exact sound.models

include sound in
theorem Sound.step {request : Request} {next : State} (succeeds : ¬ CreationFails s request)
    (shows : ¬ HidesGraph s request)
    (moved : NpuMatmul.step s request = some next) : Sound next := by
  cases request with
  | loadBackend backendChoice outcome =>
      cases moved
      exact sound.load backendChoice outcome
  | initializeNpublas backendChoice quiet outcome =>
      have formed := wellFormed_step sound.formed moved
      cases moved
      exact (sound.load backendChoice outcome).kept formed
        (State.performDiagnostics_same _ quiet).2
  | getOrCreateGraph M K N useStaticWeights staticWeightsPtr outcome =>
      obtain ⟨⟨t, graph⟩, returned, rfl⟩ := Option.map_eq_some_iff.mp moved
      have ready (missing : s.graphCache.lookup
          (weightsKey M K N useStaticWeights staticWeightsPtr) = none) :
          s.interface.isSome := by
        obtain ⟨found, _⟩ | ⟨_, ready, _⟩ := State.getOrCreateGraph_cases returned
        · rw [missing] at found
          cases found
        · exact ready
      have finalized (missing : s.graphCache.lookup
          (weightsKey M K N useStaticWeights staticWeightsPtr) = none) :
          outcome = .finalized := by
        by_contra failed
        exact succeeds ⟨missing, ready missing, failed⟩
      apply sound.graph returned finalized
      intro missing named
      by_contra absent
      exact shows ⟨missing, ready missing, finalized missing, named,
        Option.not_isSome_iff_eq_none.mp absent⟩
  | execute key useStaticWeights outcome =>
      have formed := wellFormed_step sound.formed moved
      obtain rfl | ⟨graph, _, _, rfl⟩ := step_execute_cases moved
      · exact sound
      · exact sound.kept formed (State.execute_same s graph useStaticWeights outcome).2
  | matmul => exact sound.matmul succeeds moved
  | matmulTiled => exact sound.matmulTiled succeeds moved
  | unloadActiveBackend =>
      cases moved
      exact sound.unload

end Sound

theorem sound_start (outcome : LoadOutcome) : Sound (start outcome) := by
  have blank : Sound State.blank := by
    refine ⟨wellFormed_blank, ?_, ?_, ?_, ?_⟩ <;> simp [State.blank]
  exact blank.load 1 outcome

theorem not_atomic_of_creationFails {s : State} (formed : s.WellFormed) {request : Request}
    (fails : CreationFails s request) : ¬ Atomic s request := by
  intro atomic
  have unchanged := atomic fails
  have longer {α : Type} {value : α} {values : List α} : value :: values ≠ values :=
    List.cons_ne_self value values
  cases request with
  | getOrCreateGraph M K N useStaticWeights staticWeightsPtr outcome =>
      obtain ⟨missing, ready, failed⟩ := fails
      have returned := State.getOrCreateGraph_miss outcome missing ready
      rw [if_neg failed] at returned
      have same := (unchanged _ (congrArg (Option.map Prod.fst) returned)).1
      exact longer same
  | matmul M K N backendChoice useStaticWeights outcome =>
      obtain ⟨loads, cache, loaded, kept⟩ :=
        State.loadBackend_correct formed backendChoice outcome.load
      by_cases ready : s.loadSucceeds backendChoice outcome.load = true
      · rw [CreationFails, if_pos ready] at fails
        obtain ⟨missing, failed⟩ := fails
        rw [← cache, ← weightsKey_none M K N useStaticWeights] at missing
        rw [ready] at loads
        have returned := State.getOrCreateGraph_miss outcome.graph missing
          (loaded.loaded loads)
        rw [if_neg failed] at returned
        have moved : step s (.matmul M K N backendChoice useStaticWeights outcome) =
            some ((s.loadBackend backendChoice outcome.load).cacheFailed
              (weightsKey M K N useStaticWeights none) M K N outcome.graph) := by
          simp [step, State.matmulNpu, State.matmulInt8, loads, returned, State.dummyInvalid]
        have same := (unchanged _ moved).1
        rw [graphsFound, ← cache] at same
        exact longer same
      · rw [CreationFails, if_neg ready] at fails
        obtain ⟨missing, broken⟩ := fails
        have idle : ¬ (s.loadBackend backendChoice outcome.load).isLoaded = true := by
          rw [loads]
          exact ready
        have moved : step s (.matmul M K N backendChoice useStaticWeights outcome) =
            some ((s.loadBackend backendChoice outcome.load).fetchModel M K N backendChoice
              outcome.model).1 := by
          have missed : s.fetchedModel M K N backendChoice outcome.model =
              createModel M K N backendChoice outcome.model := by
            simp [State.fetchedModel, missing]
          simp [step, State.matmulNpu, State.matmulInt8, idle, fetchModel_fetched,
            fetchedModel_loadBackend formed, missed, broken]
        have same := (unchanged _ moved).2.2
        rw [State.findModel] at missing
        simp [State.fetchModel, State.findModel, kept.models, missing] at same
  | matmulTiled M K N splits backendChoice outcome =>
      obtain ⟨loads, _, _, kept⟩ := State.loadBackend_correct formed backendChoice outcome.load
      obtain ⟨ready, divisors, missing, failed⟩ := fails
      rw [ready] at loads
      rw [← kept.globalDynamicFcGraphs] at missing
      have invalid : decide (outcome.graph = .finalized) = false := by simpa using failed
      have moved : step s (.matmulTiled M K N splits backendChoice outcome) =
          some (((s.loadBackend backendChoice outcome.load).buildGraph outcome.graph).cacheDynamic
            (graphKey (M / splits.m) (K / splits.k) (N / splits.n))
            ((s.loadBackend backendChoice outcome.load).builtEntry (M / splits.m) (K / splits.k)
              (N / splits.n) outcome.graph)) := by
        simp [step, State.matmulTiledNpu, State.matmulTiled, State.dynamicGraph, loads, divisors,
          missing, State.builtEntry, invalid]
      have same := (unchanged _ moved).2.1
      rw [← kept.globalDynamicFcGraphs] at same
      exact longer same
  | loadBackend | initializeNpublas | execute | unloadActiveBackend => exact fails

theorem not_exact_of_hidesGraph {s : State} {request : Request} (hides : HidesGraph s request) :
    ∃ next, step s request = some next ∧ ¬ HasGraphExact next := by
  cases request with
  | getOrCreateGraph M K N useStaticWeights staticWeightsPtr outcome =>
      obtain ⟨missing, ready, rfl, named, absent⟩ := hides
      have returned := State.getOrCreateGraph_miss .finalized missing ready
      refine ⟨_, congrArg (Option.map Prod.fst) returned, ?_⟩
      intro precise
      have present := (precise M K N).mpr ⟨_, List.mem_cons_self, rfl, rfl, rfl, rfl⟩
      obtain same | earlier := State.hasGraph_cacheBuilt.mp present
      · simp [weightsKey_eq_graphKey.mp same.symm] at named
      · simp [State.hasGraph, absent] at earlier
  | loadBackend | initializeNpublas | execute | matmul | matmulTiled | unloadActiveBackend =>
      exact hides.elim

-- A failed creation always leaves an entry, lookups serve it without a second look, and hasGraph
-- looks for the shape's own key alone.
theorem cachesHold_iff_nothing_fails (outcome : LoadOutcome) (requests : List Request) :
    Runs.Along step CachesHold (start outcome) requests ↔
      Runs.Along step (fun s request => ¬ CreationFails s request ∧ ¬ HidesGraph s request)
        (start outcome) requests := by
  apply Runs.along_iff (I := Sound)
  · intro s request next sound met moved
    exact sound.step met.1 met.2 moved
  · intro s request sound
    constructor
    · intro holds
      refine ⟨fun fails => not_atomic_of_creationFails sound.formed fails holds.1, fun hides => ?_⟩
      obtain ⟨next, moved, inexact⟩ := not_exact_of_hidesGraph hides
      exact inexact (holds.2 next moved).1
    · rintro ⟨succeeds, shows⟩
      refine ⟨fun fails => absurd fails succeeds, fun next moved => ?_⟩
      have after := sound.step succeeds shows moved
      exact ⟨after.hasGraphExact, after.retries⟩
  · exact sound_start outcome

-- One prepare_matmul whose graph does not finalise: the entry stays, has_graph finds it, and the
-- next prepare_matmul of the shape is served the invalid graph without a second attempt.
theorem failed_prepare_sticks :
    ∃ s, step (start (loadsWith fullTable)) (.getOrCreateGraph 4 4 4 false none .notFinalized) =
        some s ∧
      ¬ Runs.Along step CachesHold (start (loadsWith fullTable))
        [.getOrCreateGraph 4 4 4 false none .notFinalized] ∧
      s.hasGraph 4 4 4 = true ∧
      ∃ graph, s.getOrCreateGraph 4 4 4 false none .finalized = some (s.hit graph, graph) ∧
        graph.isValid = false := by
  have missing : (start (loadsWith fullTable)).graphCache.lookup (weightsKey 4 4 4 false none) =
      none := rfl
  have returned := State.getOrCreateGraph_miss .notFinalized missing rfl
  refine ⟨_, congrArg (Option.map Prod.fst) returned, ?_, ?_, ?_⟩
  · intro holds
    have fails : CreationFails (start (loadsWith fullTable))
        (.getOrCreateGraph 4 4 4 false none .notFinalized) := ⟨missing, rfl, by decide⟩
    exact not_atomic_of_creationFails (wellFormed_start _) fails holds.1.1
  · exact Option.isSome_iff_exists.mpr ⟨_, List.lookup_cons_self⟩
  · exact ⟨_, State.getOrCreateGraph_hit List.lookup_cons_self, rfl⟩

end NpuMatmul
