import NpuMatmul.Engine.Backend

set_option autoImplicit false

namespace NpuMatmul

structure BuildStatuses where
  contextCreated : Bool
  graphCreated : Bool
  graphFinalized : Bool
deriving DecidableEq, Repr

-- The code makes all three calls whatever the ones before answered. QNN fails one on a null handle.
structure BuildStatuses.RefusesNull (statuses : BuildStatuses) : Prop where
  graphCreate : statuses.graphCreated = true → statuses.contextCreated = true
  graphFinalize : statuses.graphFinalized = true → statuses.graphCreated = true

inductive BuildOutcome where
  | noContext
  | noGraph
  | notFinalized
  | finalized
deriving DecidableEq, Repr

def BuildStatuses.outcome (statuses : BuildStatuses) : BuildOutcome :=
  if statuses.graphFinalized then .finalized
  else if statuses.graphCreated then .notFinalized
  else if statuses.contextCreated then .noGraph
  else .noContext

structure ExecuteOutcome where
  temporary : BuildOutcome
  executed : Bool

def graphKey (M K N : Nat) : String := s!"{M}_{K}_{N}"

-- The key of getOrCreateGraph: under USE_STATIC_WEIGHTS=1 it also names the weights' address.
def weightsKey (M K N : Nat) (useStaticWeights : Bool) (staticWeightsPtr : Option Nat) : String :=
  match useStaticWeights, staticWeightsPtr with
  | true, some address => graphKey M K N ++ "_" ++ toString address
  | _, _ => graphKey M K N

namespace State

def hasGraph (s : State) (M K N : Nat) : Bool := (s.graphCache.lookup (graphKey M K N)).isSome

def builtContext (s : State) : BuildOutcome → Option Handle
  | .noContext => none
  | _ => some s.fresh

def builtGraph (s : State) : BuildOutcome → Option GraphHandle
  | .noContext | .noGraph => none
  | _ => some { context := s.fresh, serial := s.serial + 1 }

@[simps] def buildGraph (s : State) (outcome : BuildOutcome) : State :=
  { s with
    calls :=
      .graphFinalize (s.builtGraph outcome) ::
        .graphCreate (s.builtContext outcome) (s.builtGraph outcome) ::
          .contextCreate s.backendHandle s.deviceHandle (s.builtContext outcome) :: s.calls
    serial := s.serial + 2 }

def builtEntry (s : State) (M K N : Nat) (outcome : BuildOutcome) : CachedGraph :=
  { isValid := decide (outcome = .finalized)
    contextHandle := s.builtContext outcome
    graphHandle := s.builtGraph outcome
    M := M
    K := K
    N := N }

theorem builtEntry_statuses (s : State) (M K N : Nat) {statuses : BuildStatuses}
    (refuses : statuses.RefusesNull) :
    let graph := s.builtEntry M K N statuses.outcome
    graph.isValid = statuses.graphFinalized ∧
      graph.contextHandle.isSome = statuses.contextCreated ∧
        graph.graphHandle.isSome = statuses.graphCreated := by
  obtain ⟨context, graph, final⟩ := statuses
  obtain ⟨created, finalized⟩ := refuses
  cases final with
  | true =>
      cases finalized rfl
      cases created rfl
      exact ⟨rfl, rfl, rfl⟩
  | false =>
      cases graph with
      | true =>
          cases created rfl
          exact ⟨rfl, rfl, rfl⟩
      | false => cases context <;> exact ⟨rfl, rfl, rfl⟩

theorem exists_statuses (outcome : BuildOutcome) :
    ∃ statuses : BuildStatuses, statuses.RefusesNull ∧ statuses.outcome = outcome := by
  cases outcome with
  | noContext => exact ⟨⟨false, false, false⟩, by constructor <;> decide, rfl⟩
  | noGraph => exact ⟨⟨true, false, false⟩, by constructor <;> decide, rfl⟩
  | notFinalized => exact ⟨⟨true, true, false⟩, by constructor <;> decide, rfl⟩
  | finalized => exact ⟨⟨true, true, true⟩, by constructor <;> decide, rfl⟩

@[simps!] def hit (s : State) (graph : CachedGraph) : State :=
  s.call (.cacheHit graph.contextHandle graph.graphHandle)

@[simps] def cache (s : State) (key : String) (graph : CachedGraph) : State :=
  { s with graphCache := (key, graph) :: s.graphCache }

@[simps] def cacheDynamic (s : State) (key : String) (graph : CachedGraph) : State :=
  { s with globalDynamicFcGraphs := (key, graph) :: s.globalDynamicFcGraphs }

def dummyInvalid : CachedGraph :=
  { isValid := false, contextHandle := none, graphHandle := none, M := 0, K := 0, N := 0 }

-- The entry stays in the cache when finalisation fails. Without an interface the call crashes.
def getOrCreateGraph (s : State) (M K N : Nat) (useStaticWeights : Bool)
    (staticWeightsPtr : Option Nat) (outcome : BuildOutcome) : Option (State × CachedGraph) :=
  let key := weightsKey M K N useStaticWeights staticWeightsPtr
  match s.graphCache.lookup key with
  | some graph => some (s.hit graph, graph)
  | none =>
      if s.interface.isSome then
        let graph := s.builtEntry M K N outcome
        let built := (s.buildGraph outcome).cache key graph
        if outcome = .finalized then some (built, graph)
        else some (built.call (.contextFree graph.contextHandle), dummyInvalid)
      else none

-- Under USE_STATIC_WEIGHTS=1 a temporary graph runs in a context of its own.
def execute (s : State) (graph : CachedGraph) (useStaticWeights : Bool)
    (outcome : ExecuteOutcome) : State :=
  if useStaticWeights then
    let built := s.buildGraph outcome.temporary
    (built.call (.graphExecute (s.builtGraph outcome.temporary) outcome.executed)).call
      (.contextFree (s.builtContext outcome.temporary))
  else s.call (.graphExecute graph.graphHandle outcome.executed)

def executeRounds (s : State) (graph : CachedGraph) (executed : Nat → Bool) : Nat → State
  | 0 => s
  | rounds + 1 =>
      (executeRounds s graph executed rounds).call
        (.graphExecute graph.graphHandle (executed rounds))

-- The lookup of matmul_tiled in global_dynamic_fc_graphs, keyed by the block shape alone.
def dynamicGraph (s : State) (M K N : Nat) (outcome : BuildOutcome) : State × CachedGraph :=
  match s.globalDynamicFcGraphs.lookup (graphKey M K N) with
  | some graph => (s.hit graph, graph)
  | none =>
      let graph := s.builtEntry M K N outcome
      ((s.buildGraph outcome).cacheDynamic (graphKey M K N) graph, graph)

end State

end NpuMatmul
