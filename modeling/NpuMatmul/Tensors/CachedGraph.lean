import NpuMatmul.Engine.Graphs
import NpuMatmul.Pipeline.FullyConnected

set_option autoImplicit false

namespace NpuMatmul

inductive TensorType where
  | appWrite
  | appRead
  | static
deriving DecidableEq, Repr

abbrev Bytes := Nat → BitVec 8

-- What a QnnCachedGraph declares. Data stands for what is behind a pointer; staticWeights is the
-- data of tensor B where this is STATIC.
structure QnnCachedGraph (Data : Type) where
  isValid : Bool
  M : Nat
  K : Nat
  N : Nat
  tensorBType : TensorType
  staticWeights : Option Data

structure ExecTensor (Data : Type) where
  type : TensorType
  tensor : Tensor
  data : Data
  dataSize : Nat

def Tensor.byteCount (tensor : Tensor) : Nat :=
  tensor.dimensions.prod * getDataTypeSize tensor.dataType

def ExecTensor.of {Data : Type} (type : TensorType) (tensor : Tensor) (data : Data) :
    ExecTensor Data :=
  { type := type, tensor := tensor, data := data, dataSize := tensor.byteCount % 2 ^ 32 }

-- What the application exchanges with a graph: the tensors but for their client buffers.
abbrev Slot := TensorType × Tensor

def ExecTensor.slot {Data : Type} (input : ExecTensor Data) : Slot := (input.type, input.tensor)

structure GraphExecute (Data : Type) where
  graph : QnnCachedGraph Data
  inputs : List (ExecTensor Data)
  output : ExecTensor Data

namespace QnnCachedGraph

variable {Data : Type}

def inputSlots (graph : QnnCachedGraph Data) : List Slot :=
  (.appWrite, tensorA graph.M graph.K) ::
    if graph.tensorBType = .static then [] else [(graph.tensorBType, tensorB graph.N graph.K)]

-- assign is what a vector holds after assign(inputB, inputB + count).
def temporary (assign : Data → Nat → Data) (graph : QnnCachedGraph Data) (inputB : Data) :
    QnnCachedGraph Data :=
  { isValid := false
    M := graph.M
    K := graph.K
    N := graph.N
    tensorBType := .static
    staticWeights := some (assign inputB (graph.N * graph.K)) }

def execute (assign : Data → Nat → Data) (graph : QnnCachedGraph Data) (useStaticWeights : Bool)
    (inputA inputB outputC : Data) : GraphExecute Data :=
  let a := ExecTensor.of .appWrite (tensorA graph.M graph.K) inputA
  let c := ExecTensor.of .appRead (tensorC graph.M graph.N) outputC
  if useStaticWeights then
    { graph := graph.temporary assign inputB, inputs := [a], output := c }
  else
    { graph := graph
      inputs := [a, .of graph.tensorBType (tensorB graph.N graph.K) inputB]
      output := c }

end QnnCachedGraph

structure GraphRequest where
  M : Nat
  K : Nat
  N : Nat
  useStaticWeights : Bool
  staticWeightsPtr : Option Nat
  memory : Bytes
  outcome : BuildOutcome

namespace GraphRequest

def key (request : GraphRequest) : String :=
  weightsKey request.M request.K request.N request.useStaticWeights request.staticWeightsPtr

def weights (request : GraphRequest) : Option Bytes :=
  if request.useStaticWeights then
    match request.staticWeightsPtr with
    | some address => some fun i => request.memory (address + i)
    | none => some fun _ => 127
  else none

def build (request : GraphRequest) : QnnCachedGraph Bytes :=
  { isValid := decide (request.outcome = .finalized)
    M := request.M
    K := request.K
    N := request.N
    tensorBType := if request.useStaticWeights then .static else .appWrite
    staticWeights := request.weights }

end GraphRequest

-- graphCache, the memory of the process, and every request since the cache was last emptied, the
-- oldest first.
structure GraphStore where
  graphCache : List (String × QnnCachedGraph Bytes)
  memory : Bytes
  asked : List GraphRequest

def invalidGraph : QnnCachedGraph Bytes :=
  { isValid := false, M := 0, K := 0, N := 0, tensorBType := .appWrite, staticWeights := none }

namespace GraphStore

def start (memory : Bytes) : GraphStore := { graphCache := [], memory := memory, asked := [] }

-- The engine is loaded. A graph that is not finalised stays in the cache.
def getOrCreateGraph (s : GraphStore) (request : GraphRequest) :
    GraphStore × QnnCachedGraph Bytes :=
  let s := { s with asked := s.asked ++ [request] }
  match s.graphCache.lookup request.key with
  | some graph => (s, graph)
  | none =>
      ({ s with graphCache := (request.key, request.build) :: s.graphCache },
        if request.outcome = .finalized then request.build else invalidGraph)

end GraphStore

inductive GraphAction where
  | getOrCreateGraph (M K N : Nat) (useStaticWeights : Bool) (staticWeightsPtr : Option Nat)
      (outcome : BuildOutcome)
  | execute (key : String) (useStaticWeights : Bool) (inputA inputB outputC : Nat)
  | write (address : Nat) (value : BitVec 8)
  | unloadActiveBackend

namespace GraphStore

def request (s : GraphStore) (M K N : Nat) (useStaticWeights : Bool)
    (staticWeightsPtr : Option Nat) (outcome : BuildOutcome) : GraphRequest :=
  { M := M, K := K, N := N, useStaticWeights := useStaticWeights,
    staticWeightsPtr := staticWeightsPtr, memory := s.memory, outcome := outcome }

def behind (s : GraphStore) (address : Nat) : Bytes := fun i => s.memory (address + i)

def executed (s : GraphStore) (graph : QnnCachedGraph Bytes) (useStaticWeights : Bool)
    (inputA inputB outputC : Nat) : GraphExecute Bytes :=
  graph.execute (fun data _ => data) useStaticWeights (s.behind inputA) (s.behind inputB)
    (s.behind outputC)

-- graphExecute fills the buffer at outputC; such stores are writes of their own here.
def step (s : GraphStore) : GraphAction → Option GraphStore
  | .getOrCreateGraph M K N useStaticWeights staticWeightsPtr outcome =>
      some (s.getOrCreateGraph
        (s.request M K N useStaticWeights staticWeightsPtr outcome)).1
  | .execute _ _ _ _ _ => some s
  | .write address value => some { s with memory := Function.update s.memory address value }
  | .unloadActiveBackend => some { s with graphCache := [], asked := [] }

end GraphStore

end NpuMatmul
