import NpuMatmul.Engine.GraphKeys
import NpuMatmul.Engine.RequestSpec

set_option autoImplicit false

namespace NpuMatmul

structure EntriesGrow (s t : State) : Prop where
  graphs : ∀ entry ∈ t.graphCache, entry ∈ s.graphCache ∨
    ∃ (u : State) (M K N : Nat) (useStaticWeights : Bool) (staticWeightsPtr : Option Nat)
      (outcome : BuildOutcome),
      entry = (weightsKey M K N useStaticWeights staticWeightsPtr, u.builtEntry M K N outcome)
  dynamic : ∀ entry ∈ t.globalDynamicFcGraphs, entry ∈ s.globalDynamicFcGraphs ∨
    ∃ (u : State) (M K N : Nat) (outcome : BuildOutcome),
      entry = (graphKey M K N, u.builtEntry M K N outcome)

namespace EntriesGrow

variable {s t u : State}

theorem trans (first : EntriesGrow s t) (second : EntriesGrow t u) : EntriesGrow s u := by
  constructor
  · intro entry member
    exact (second.graphs entry member).elim (first.graphs entry) Or.inr
  · intro entry member
    exact (second.dynamic entry member).elim (first.dynamic entry) Or.inr

theorem of_same (caches : State.SameCaches s t) : EntriesGrow s t := by
  constructor
  · rw [caches.graphCache]
    exact fun _ member => Or.inl member
  · rw [caches.globalDynamicFcGraphs]
    exact fun _ member => Or.inl member

theorem load (formed : s.WellFormed) (backendChoice : Int) (outcome : LoadOutcome) :
    EntriesGrow s (s.loadBackend backendChoice outcome) := by
  obtain ⟨_, cache, _, kept⟩ := State.loadBackend_correct formed backendChoice outcome
  constructor
  · rw [cache, State.retained]
    split
    · exact fun _ member => Or.inl member
    · simp
  · rw [kept.globalDynamicFcGraphs]
    exact fun _ member => Or.inl member

theorem unload (formed : s.WellFormed) : EntriesGrow s s.unloadActiveBackend := by
  constructor
  · simp [formed.unloaded.2]
  · rw [(State.unloadActiveBackend_unloaded s).globalDynamicFcGraphs]
    exact fun _ member => Or.inl member

theorem getOrCreateGraph {M K N : Nat} {useStaticWeights : Bool} {staticWeightsPtr : Option Nat}
    {outcome : BuildOutcome} {graph : CachedGraph}
    (returned : s.getOrCreateGraph M K N useStaticWeights staticWeightsPtr outcome =
      some (t, graph)) : EntriesGrow s t := by
  constructor
  · intro entry member
    obtain ⟨_, rfl⟩ | ⟨_, _, ⟨_, _, rfl⟩ | ⟨_, _, rfl⟩⟩ := State.getOrCreateGraph_cases returned
    · exact Or.inl member
    all_goals
      obtain rfl | earlier := List.mem_cons.mp member
      · exact Or.inr ⟨s, M, K, N, useStaticWeights, staticWeightsPtr, outcome, rfl⟩
      · exact Or.inl earlier
  · rw [(State.getOrCreateGraph_others returned).1]
    exact fun _ member => Or.inl member

theorem dynamicGraph {M K N : Nat} {outcome : BuildOutcome} {graph : CachedGraph}
    (returned : s.dynamicGraph M K N outcome = (t, graph)) : EntriesGrow s t := by
  constructor
  · have same := State.dynamicGraph_same s M K N outcome
    rw [returned] at same
    rw [same.2.1]
    exact fun _ member => Or.inl member
  · intro entry member
    obtain ⟨_, rfl⟩ | ⟨_, _, rfl⟩ := State.dynamicGraph_cases returned
    · exact Or.inl member
    · obtain rfl | earlier := List.mem_cons.mp member
      · exact Or.inr ⟨s, M, K, N, outcome, rfl⟩
      · exact Or.inl earlier

theorem fetchModel (s : State) (M K N : Nat) (backendChoice : Int) (outcome : ModelOutcome) :
    EntriesGrow s (s.fetchModel M K N backendChoice outcome).1 := by
  obtain ⟨models, fetched⟩ := State.fetchModel_fields s M K N backendChoice outcome
  rw [fetched]
  exact ⟨fun _ member => Or.inl member, fun _ member => Or.inl member⟩

theorem step {request : Request} (formed : s.WellFormed)
    (moved : NpuMatmul.step s request = some t) : EntriesGrow s t := by
  cases request with
  | loadBackend backendChoice outcome =>
      cases moved
      exact load formed backendChoice outcome
  | initializeNpublas backendChoice quiet outcome =>
      cases moved
      exact (load formed backendChoice outcome).trans
        (of_same (State.performDiagnostics_same _ quiet).2)
  | getOrCreateGraph M K N useStaticWeights staticWeightsPtr outcome =>
      obtain ⟨⟨_, graph⟩, returned, rfl⟩ := Option.map_eq_some_iff.mp moved
      exact getOrCreateGraph returned
  | execute key useStaticWeights outcome =>
      obtain rfl | ⟨graph, _, _, rfl⟩ := step_execute_cases moved
      · exact of_same ⟨rfl, rfl, rfl⟩
      · exact of_same (State.execute_same s graph useStaticWeights outcome).2
  | matmul M K N backendChoice useStaticWeights outcome =>
      have loaded := load formed backendChoice outcome.load
      obtain ⟨⟨_, C⟩, returned, rfl⟩ := Option.map_eq_some_iff.mp moved
      obtain ⟨_, u, graph, created, ran⟩ | ⟨_, rfl⟩ := State.matmulInt8_cases returned
      · have served := loaded.trans (getOrCreateGraph created)
        obtain ⟨_, rfl⟩ | ⟨_, rfl⟩ := ran
        · exact served.trans (of_same (State.execute_same u graph useStaticWeights _).2)
        · exact served
      · exact loaded.trans (fetchModel _ M K N backendChoice outcome.model)
  | matmulTiled M K N splits backendChoice outcome =>
      have loaded := load formed backendChoice outcome.load
      obtain ⟨⟨_, C⟩, returned, rfl⟩ := Option.map_eq_some_iff.mp moved
      obtain ⟨_, _, u, graph, found, ran⟩ | ⟨_, rfl⟩ := State.matmulTiled_cases returned
      · have served := loaded.trans (dynamicGraph found)
        obtain ⟨_, rfl⟩ | ⟨_, rfl⟩ := ran
        · exact served.trans (of_same (State.executeRounds_same u graph _ splits.k).2)
        · exact served
      · exact loaded
  | unloadActiveBackend =>
      cases moved
      exact unload formed

end EntriesGrow

structure KeyedByShape (s : State) : Prop where
  formed : s.WellFormed
  graphs : ∀ entry ∈ s.graphCache, ∃ useStaticWeights staticWeightsPtr,
    entry.1 = weightsKey entry.2.M entry.2.K entry.2.N useStaticWeights staticWeightsPtr
  dynamic : ∀ entry ∈ s.globalDynamicFcGraphs, entry.1 = graphKey entry.2.M entry.2.K entry.2.N

theorem KeyedByShape.grow {s t : State} (keyed : KeyedByShape s) (formed : t.WellFormed)
    (grow : EntriesGrow s t) : KeyedByShape t := by
  constructor
  · exact formed
  · intro entry member
    obtain earlier | ⟨_, _, _, _, useStaticWeights, staticWeightsPtr, _, rfl⟩ :=
      grow.graphs entry member
    · exact keyed.graphs entry earlier
    · exact ⟨useStaticWeights, staticWeightsPtr, rfl⟩
  · intro entry member
    obtain earlier | ⟨_, _, _, _, _, rfl⟩ := grow.dynamic entry member
    · exact keyed.dynamic entry earlier
    · rfl

theorem keyedByShape_after {outcome : LoadOutcome} {requests : List Request} {s : State}
    (reached : Runs.after step (start outcome) requests = some s) : KeyedByShape s := by
  have opened : KeyedByShape (start outcome) := by
    have empty : KeyedByShape State.blank :=
      ⟨wellFormed_blank, by simp [State.blank], by simp [State.blank]⟩
    exact empty.grow (wellFormed_start outcome) (.load wellFormed_blank 1 outcome)
  apply Runs.after_kept _ opened reached
  intro s request next keyed moved
  exact keyed.grow (wellFormed_step keyed.formed moved) (.step keyed.formed moved)

section Served

variable {s t : State} {M K N : Nat} {useStaticWeights : Bool} {staticWeightsPtr : Option Nat}
  {outcome : BuildOutcome} {graph : CachedGraph}

theorem KeyedByShape.getOrCreateGraph (keyed : KeyedByShape s)
    (returned : s.getOrCreateGraph M K N useStaticWeights staticWeightsPtr outcome =
      some (t, graph)) (valid : graph.isValid = true) :
    graph.M = M ∧ graph.K = K ∧ graph.N = N := by
  obtain ⟨found, _⟩ | ⟨_, _, ⟨_, rfl, _⟩ | ⟨_, rfl, _⟩⟩ := State.getOrCreateGraph_cases returned
  · obtain ⟨_, _, key⟩ := keyed.graphs _ (mem_of_lookup found)
    have same := weightsKey_eq_iff.mp key
    exact ⟨same.1.symm, same.2.1.symm, same.2.2.1.symm⟩
  · exact ⟨rfl, rfl, rfl⟩
  · cases valid

theorem KeyedByShape.dynamicGraph (keyed : KeyedByShape s)
    (returned : s.dynamicGraph M K N outcome = (t, graph)) :
    graph.M = M ∧ graph.K = K ∧ graph.N = N := by
  obtain ⟨found, _⟩ | ⟨_, rfl, _⟩ := State.dynamicGraph_cases returned
  · have key := keyed.dynamic _ (mem_of_lookup found)
    exact graphKey_shape key.symm
  · exact ⟨rfl, rfl, rfl⟩

end Served

end NpuMatmul
