import NpuMatmul.Engine.GraphKeys
import NpuMatmul.Engine.RequestSpec
import NpuMatmul.Shared.Memo
import NpuMatmul.Shared.Runs
import NpuMatmul.Tensors.CachedGraph

set_option autoImplicit false

namespace NpuMatmul

section Property

def QnnCachedGraph.weightBytes (graph : QnnCachedGraph Bytes) : Option (List (BitVec 8)) :=
  graph.staticWeights.map fun data => bytesOf data (graph.N * graph.K)

structure SameGraph (graph fresh : QnnCachedGraph Bytes) : Prop where
  M : graph.M = fresh.M
  K : graph.K = fresh.K
  N : graph.N = fresh.N
  tensorBType : graph.tensorBType = fresh.tensorBType
  weights : graph.weightBytes = fresh.weightBytes

def ExecTensor.operand (input : ExecTensor Bytes) : List (BitVec 8) :=
  bytesOf input.data input.dataSize

-- What a graph computes from the tensors passed: nothing, unless these are the ones it was built
-- with.
def GraphExecute.computed (run : GraphExecute Bytes) : Option FullyConnectedCall :=
  if run.inputs.map ExecTensor.slot = run.graph.inputSlots then
    match run.inputs, run.graph.staticWeights with
    | [a], some weights =>
        some (fullyConnectedCall run.graph.M run.graph.K run.graph.N a.operand
          (bytesOf weights ((tensorB run.graph.N run.graph.K).byteCount % 2 ^ 32)))
    | [a, b], none =>
        some (fullyConnectedCall run.graph.M run.graph.K run.graph.N a.operand b.operand)
    | _, _ => none
  else none

def productCall (M K N : Nat) (inputA inputB : Bytes) : FullyConnectedCall :=
  fullyConnectedCall M K N (bytesOf inputA ((tensorA M K).byteCount % 2 ^ 32))
    (bytesOf inputB ((tensorB N K).byteCount % 2 ^ 32))

namespace GraphStore

def Transparent (s : GraphStore) : GraphAction → Prop
  | .getOrCreateGraph M K N useStaticWeights staticWeightsPtr outcome =>
      let request := s.request M K N useStaticWeights staticWeightsPtr outcome
      ∀ graph, s.graphCache.lookup request.key = some graph → SameGraph graph request.build
  | .execute key useStaticWeights inputA inputB outputC =>
      ∀ graph, s.graphCache.lookup key = some graph → graph.isValid = true →
        let run := s.executed graph useStaticWeights inputA inputB outputC
        run.inputs.map ExecTensor.slot = run.graph.inputSlots ∧
          run.computed = some (productCall graph.M graph.K graph.N (s.behind inputA)
            (s.behind inputB))
  | _ => True

def maker (s : GraphStore) (key : String) : Option GraphRequest :=
  Memo.first GraphRequest.key s.asked key

def MakerAgrees (s : GraphStore) : GraphAction → Prop
  | .getOrCreateGraph M K N useStaticWeights staticWeightsPtr _ =>
      ∀ maker, s.maker (weightsKey M K N useStaticWeights staticWeightsPtr) = some maker →
        maker.useStaticWeights = useStaticWeights ∧
          ∀ address, namedAddress useStaticWeights staticWeightsPtr = some address →
            ∀ i < N * K, maker.memory (address + i) = s.memory (address + i)
  | .execute key useStaticWeights _ _ _ =>
      ∀ maker, s.maker key = some maker → maker.outcome = .finalized →
        useStaticWeights = true ∨ maker.useStaticWeights = false
  | _ => True

end GraphStore

end Property

theorem bytesOf_eq_iff {left right : Bytes} {size : Nat} :
    bytesOf left size = bytesOf right size ↔ ∀ i < size, left i = right i := by
  simp [bytesOf]

namespace GraphRequest

theorem key_eq_iff {maker request : GraphRequest} : maker.key = request.key ↔
    maker.M = request.M ∧ maker.K = request.K ∧ maker.N = request.N ∧
      namedAddress maker.useStaticWeights maker.staticWeightsPtr =
        namedAddress request.useStaticWeights request.staticWeightsPtr :=
  weightsKey_eq_iff

theorem weights_eq (request : GraphRequest) : request.weights =
    if request.useStaticWeights then
      some (((namedAddress request.useStaticWeights request.staticWeightsPtr).map
        fun address i => request.memory (address + i)).getD fun _ => 127)
    else none := by
  unfold weights namedAddress
  cases request.useStaticWeights <;> cases request.staticWeightsPtr <;> rfl

theorem sameGraph_iff {maker request : GraphRequest} (same : maker.key = request.key) :
    SameGraph maker.build request.build ↔
      maker.useStaticWeights = request.useStaticWeights ∧
        ∀ address, namedAddress request.useStaticWeights request.staticWeightsPtr = some address →
          ∀ i < request.N * request.K,
            maker.memory (address + i) = request.memory (address + i) := by
  obtain ⟨rows, inner, columns, named⟩ := key_eq_iff.mp same
  have mode : maker.build.tensorBType = request.build.tensorBType ↔
      maker.useStaticWeights = request.useStaticWeights := by
    cases own : maker.useStaticWeights <;> cases other : request.useStaticWeights <;>
      simp [build, own, other]
  have weights (flags : maker.useStaticWeights = request.useStaticWeights) :
      maker.build.weightBytes = request.build.weightBytes ↔
        ∀ address, namedAddress request.useStaticWeights request.staticWeightsPtr = some address →
          ∀ i < request.N * request.K,
            maker.memory (address + i) = request.memory (address + i) := by
    rw [flags] at named
    simp only [QnnCachedGraph.weightBytes, build, weights_eq, flags, named, inner, columns]
    cases address : namedAddress request.useStaticWeights request.staticWeightsPtr with
    | none => simp
    | some address =>
        have set : request.useStaticWeights = true := by
          unfold namedAddress at address
          split at address
          case isTrue set => exact set
          case isFalse => cases address
        simp [set, bytesOf_eq_iff]
  constructor
  · intro graphs
    have flags := mode.mp graphs.tensorBType
    exact ⟨flags, (weights flags).mp graphs.weights⟩
  · rintro ⟨flags, bytes⟩
    exact ⟨rows, inner, columns, mode.mpr flags, (weights flags).mpr bytes⟩

end GraphRequest

section Execute

variable (s : GraphStore) (graph : QnnCachedGraph Bytes) (inputA inputB outputC : Nat)

def RunsAsBuilt (useStaticWeights : Bool) : Prop :=
  let run := s.executed graph useStaticWeights inputA inputB outputC
  run.inputs.map ExecTensor.slot = run.graph.inputSlots ∧
    run.computed = some (productCall graph.M graph.K graph.N (s.behind inputA) (s.behind inputB))

theorem runsAsBuilt_static : RunsAsBuilt s graph inputA inputB outputC true := by
  constructor
  · simp [GraphStore.executed, QnnCachedGraph.execute, QnnCachedGraph.temporary,
      QnnCachedGraph.inputSlots, ExecTensor.slot, ExecTensor.of]
  · simp [GraphStore.executed, QnnCachedGraph.execute, QnnCachedGraph.temporary,
      QnnCachedGraph.inputSlots, ExecTensor.slot, ExecTensor.of, GraphExecute.computed,
      ExecTensor.operand, productCall]

theorem runsAsBuilt_dynamic_iff (request : GraphRequest) :
    RunsAsBuilt s request.build inputA inputB outputC false ↔
      request.useStaticWeights = false := by
  cases mode : request.useStaticWeights with
  | false =>
      simp [RunsAsBuilt, GraphStore.executed, QnnCachedGraph.execute, GraphRequest.build, mode,
        QnnCachedGraph.inputSlots, ExecTensor.slot, ExecTensor.of, GraphExecute.computed,
        ExecTensor.operand, productCall, GraphRequest.weights]
  | true =>
      simp [RunsAsBuilt, GraphStore.executed, QnnCachedGraph.execute, GraphRequest.build, mode,
        QnnCachedGraph.inputSlots, ExecTensor.slot, ExecTensor.of]

end Execute

section Runs

def GraphStore.MadeByFirst (s : GraphStore) : Prop :=
  Memo.HoldsFirst GraphRequest.key GraphRequest.build s.graphCache s.asked

variable {s next : GraphStore}

theorem getOrCreateGraph_serves (s : GraphStore) (request : GraphRequest) :
    (s.getOrCreateGraph request).1 =
      { s with
        graphCache := (Memo.serve GraphRequest.key GraphRequest.build s.graphCache request).1
        asked := s.asked ++ [request] } := by
  unfold GraphStore.getOrCreateGraph Memo.serve
  dsimp only
  cases found : s.graphCache.lookup request.key <;> rfl

theorem madeByFirst_step {action : GraphAction} (made : s.MadeByFirst)
    (moved : s.step action = some next) : next.MadeByFirst := by
  cases action with
  | getOrCreateGraph M K N useStaticWeights staticWeightsPtr outcome =>
      cases moved
      rw [getOrCreateGraph_serves]
      exact Memo.HoldsFirst.serve made _
  | execute key useStaticWeights inputA inputB outputC =>
      cases moved
      exact made
  | write address value =>
      cases moved
      exact made
  | unloadActiveBackend =>
      cases moved
      exact Memo.holdsFirst_nil

theorem transparent_iff {action : GraphAction} (made : s.MadeByFirst) :
    s.Transparent action ↔ s.MakerAgrees action := by
  cases action with
  | getOrCreateGraph M K N useStaticWeights staticWeightsPtr outcome =>
      let request := s.request M K N useStaticWeights staticWeightsPtr outcome
      have held := made request.key
      have agree (maker : GraphRequest) (asked : s.maker request.key = some maker) :
          SameGraph maker.build request.build ↔ _ :=
        GraphRequest.sameGraph_iff (Memo.first_key asked)
      constructor
      · intro transparent maker asked
        have found : s.graphCache.lookup request.key = some maker.build := by
          rw [held]
          exact congrArg (Option.map GraphRequest.build) asked
        exact (agree maker asked).mp (transparent _ found)
      · intro agrees graph found
        obtain ⟨maker, asked, rfl⟩ := Option.map_eq_some_iff.mp (held.symm.trans found)
        exact (agree maker asked).mpr (agrees maker asked)
  | execute key useStaticWeights inputA inputB outputC =>
      have held := made key
      have agree (maker : GraphRequest) :
          RunsAsBuilt s maker.build inputA inputB outputC useStaticWeights ↔
            useStaticWeights = true ∨ maker.useStaticWeights = false := by
        cases useStaticWeights with
        | true => simp [runsAsBuilt_static]
        | false => simpa using runsAsBuilt_dynamic_iff s inputA inputB outputC maker
      constructor
      · intro transparent maker asked done
        have found : s.graphCache.lookup key = some maker.build := by
          rw [held]
          exact congrArg (Option.map GraphRequest.build) asked
        exact (agree maker).mp (transparent _ found (by simp [GraphRequest.build, done]))
      · intro agrees graph found valid
        obtain ⟨maker, asked, rfl⟩ := Option.map_eq_some_iff.mp (held.symm.trans found)
        exact (agree maker).mpr (agrees maker asked (by simpa [GraphRequest.build] using valid))
  | write | unloadActiveBackend => exact Iff.rfl

end Runs

section Engine

def CachedGraph.outline (graph : CachedGraph) : Bool × Nat × Nat × Nat :=
  (graph.isValid, graph.M, graph.K, graph.N)

def QnnCachedGraph.outline {Data : Type} (graph : QnnCachedGraph Data) : Bool × Nat × Nat × Nat :=
  (graph.isValid, graph.M, graph.K, graph.N)

-- The engine keeps the outline of each entry; here its tensor B is kept as well.
def Mirrors (engine : State) (s : GraphStore) : Prop :=
  ∀ key, (engine.graphCache.lookup key).map CachedGraph.outline =
    (s.graphCache.lookup key).map QnnCachedGraph.outline

theorem Mirrors.cache {engine : List (String × CachedGraph)}
    {cache : List (String × QnnCachedGraph Bytes)}
    (mirrors : ∀ key, (engine.lookup key).map CachedGraph.outline =
      (cache.lookup key).map QnnCachedGraph.outline) (key : String) {entry : CachedGraph}
    {fresh : QnnCachedGraph Bytes} (same : entry.outline = fresh.outline) (wanted : String) :
    (((key, entry) :: engine).lookup wanted).map CachedGraph.outline =
      (((key, fresh) :: cache).lookup wanted).map QnnCachedGraph.outline := by
  simp only [List.lookup_cons]
  split
  · exact congrArg some same
  · exact mirrors wanted

theorem Mirrors.getOrCreateGraph {engine after : State} {s : GraphStore} {M K N : Nat}
    {useStaticWeights : Bool} {staticWeightsPtr : Option Nat} {outcome : BuildOutcome}
    {graph : CachedGraph} (mirrors : Mirrors engine s)
    (returned : engine.getOrCreateGraph M K N useStaticWeights staticWeightsPtr outcome =
      some (after, graph)) :
    let served := s.getOrCreateGraph (s.request M K N useStaticWeights staticWeightsPtr outcome)
    Mirrors after served.1 ∧ graph.outline = served.2.outline := by
  have own := mirrors (weightsKey M K N useStaticWeights staticWeightsPtr)
  have key : (s.request M K N useStaticWeights staticWeightsPtr outcome).key =
      weightsKey M K N useStaticWeights staticWeightsPtr := rfl
  unfold GraphStore.getOrCreateGraph
  dsimp only
  rw [key]
  obtain ⟨found, rfl⟩ | ⟨missing, _, made⟩ := State.getOrCreateGraph_cases returned
  · rw [found] at own
    obtain ⟨mirrored, held, same⟩ := Option.map_eq_some_iff.mp own.symm
    rw [held]
    exact ⟨mirrors, same.symm⟩
  · rw [missing] at own
    rw [Option.map_eq_none_iff.mp own.symm]
    have built : (engine.builtEntry M K N outcome).outline =
        (s.request M K N useStaticWeights staticWeightsPtr outcome).build.outline := rfl
    obtain ⟨done, rfl, rfl⟩ | ⟨failed, rfl, rfl⟩ := made
    · rw [if_pos (show (s.request ..).outcome = _ from done)]
      exact ⟨Mirrors.cache mirrors _ built, built⟩
    · rw [if_neg (show ¬ (s.request ..).outcome = _ from failed)]
      exact ⟨Mirrors.cache mirrors _ built, rfl⟩

end Engine

-- The cache is transparent in exactly the runs in which every entry served was made in the mode,
-- and over the weights, of the call it is served to.
theorem cache_transparent_iff (memory : Bytes) (actions : List GraphAction) :
    Runs.Along GraphStore.step GraphStore.Transparent (.start memory) actions ↔
      Runs.Along GraphStore.step GraphStore.MakerAgrees (.start memory) actions := by
  apply Runs.along_iff (I := GraphStore.MadeByFirst)
  · intro s action next made _ moved
    exact madeByFirst_step made moved
  · intro s action made
    exact transparent_iff made
  · exact Memo.holdsFirst_nil

-- A graph asked for with USE_STATIC_WEIGHTS=1 is served, its weights all 127, to a caller in the
-- other mode, who passes it the two inputs of a dynamic graph.
theorem static_graph_served :
    ¬ Runs.Along GraphStore.step GraphStore.Transparent (.start fun _ => 0)
      [.getOrCreateGraph 1 1 1 true none .finalized,
        .getOrCreateGraph 1 1 1 false none .finalized, .execute (graphKey 1 1 1) false 0 0 0] := by
  intro along
  have served := (along.2 _ rfl).1 _ (List.lookup_cons_self)
  simpa [GraphRequest.build, GraphStore.request] using served.tensorBType

end NpuMatmul
