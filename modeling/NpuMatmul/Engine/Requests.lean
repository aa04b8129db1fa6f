import NpuMatmul.Engine.Graphs
import NpuMatmul.Pipeline.Kernels
import NpuMatmul.Shared.Runs

set_option autoImplicit false

namespace NpuMatmul

-- A cell of the output tensor, as the output buffers it was computed from: of each whether a
-- successful execution of the call had written it. A cell not written is [].
abbrev Cell := List Bool

structure ModelOutcome where
  loadable : String → Bool
  interpreter : Bool
  outputBound : Bool

structure MatmulOutcome where
  load : LoadOutcome
  graph : BuildOutcome
  execute : ExecuteOutcome
  model : ModelOutcome
  invoked : Bool

structure TiledOutcome where
  load : LoadOutcome
  graph : BuildOutcome
  executed : Nat → Bool

def modelFilename (M K N : Nat) (backendChoice : Int) : String :=
  if backendChoice = 3 then s!"matmuls/matmul_fp32_{M}x{K}_{K}x{N}.tflite"
  else s!"matmuls/matmul_a16w8_{M}x{K}_{K}x{N}.tflite"

def createModel (M K N : Nat) (backendChoice : Int) (outcome : ModelOutcome) : Model :=
  if outcome.loadable (modelFilename M K N backendChoice) then
    { M := M, K := K, N := N, backendChoice := backendChoice, interpreter := outcome.interpreter,
      outputBound := outcome.interpreter && outcome.outputBound }
  else
    { M := M, K := K, N := N, backendChoice := backendChoice, interpreter := false,
      outputBound := false }

def Model.serves (model : Model) (M K N : Nat) (backendChoice : Int) : Bool :=
  model.M = M && model.K = K && model.N = N && model.backendChoice = backendChoice

namespace State

def findModel (s : State) (M K N : Nat) (backendChoice : Int) : Option Model :=
  s.models.find? fun model => model.serves M K N backendChoice

def fetchModel (s : State) (M K N : Nat) (backendChoice : Int) (outcome : ModelOutcome) :
    State × Model :=
  let s := { s with fallbacks := s.fallbacks + 1 }
  match s.findModel M K N backendChoice with
  | some model => (s, model)
  | none =>
      let model := createModel M K N backendChoice outcome
      ({ s with models := s.models ++ [model] }, model)

-- The fallback of matmul_int8: for backend 3 the buffers are copied, for the others each cell is
-- decoded; either way every cell is written, from persist_out, once Invoke succeeds.
def invoke (model : Model) (M N : Nat) (invoked : Bool) (C : Nat → Cell) : Nat → Cell :=
  if model.interpreter && invoked then updateCells M N N (fun _ _ _ => [model.outputBound]) C
  else C

-- A call that returns reports the state and C; none is a crash. Both ways to the quantisation build
-- FixedPointBlock(M, K, K, true), which divides by its block size K.
def matmulInt8 (s : State) (M K N : Nat) (backendChoice : Int) (useStaticWeights : Bool)
    (outcome : MatmulOutcome) (C : Nat → Cell) : Option (State × (Nat → Cell)) :=
  let s := s.loadBackend backendChoice outcome.load
  if s.isLoaded then
    match s.getOrCreateGraph M K N useStaticWeights none outcome.graph with
    | none => none
    | some (s, graph) =>
        if graph.isValid then
          if K = 0 then none
          else
            some (s.execute graph useStaticWeights outcome.execute,
              updateCells M N N (fun _ _ _ => [outcome.execute.executed]) C)
        else some (s, C)
  else
    let (s, model) := s.fetchModel M K N backendChoice outcome.model
    if model.interpreter ∧ backendChoice ≠ 3 ∧ K = 0 then none
    else some (s, invoke model M N outcome.invoked C)

-- One round of the k_split loop: graphExecute into a zeroed buffer, then the accumulation.
def tiledRounds (mBlock nBlock N : Nat) (executed : Nat → Bool) (rounds : Nat) (C : Nat → Cell) :
    Nat → Cell :=
  Loop.forLoop rounds
    (fun step C => updateCells mBlock nBlock N (fun _ _ cell => cell ++ [executed step]) C) C

-- A split of 0 divides by zero, and so does the constructor of block_A when K is 0.
def matmulTiled (s : State) (M K N : Nat) (splits : Splits) (backendChoice : Int)
    (outcome : TiledOutcome) (C : Nat → Cell) : Option (State × (Nat → Cell)) :=
  let s := s.loadBackend backendChoice outcome.load
  if s.isLoaded then
    if splits.m = 0 ∨ splits.k = 0 ∨ splits.n = 0 ∨ K = 0 then none
    else
      let mBlock := M / splits.m
      let kBlock := K / splits.k
      let nBlock := N / splits.n
      let C := Loop.store (M * N) id (fun _ => []) C
      let (s, graph) := s.dynamicGraph mBlock kBlock nBlock outcome.graph
      if graph.isValid then
        some (s.executeRounds graph outcome.executed splits.k,
          tiledRounds mBlock nBlock N outcome.executed splits.k C)
      else some (s, C)
  else some (s, C)

def matmulNpu (s : State) (M K N : Nat) (backendChoice : Int) (useStaticWeights : Bool)
    (outcome : MatmulOutcome) : Option (State × (Nat → Cell)) :=
  s.matmulInt8 M K N backendChoice useStaticWeights outcome fun _ => []

def matmulTiledNpu (s : State) (M K N : Nat) (splits : Splits) (backendChoice : Int)
    (outcome : TiledOutcome) : Option (State × (Nat → Cell)) :=
  s.matmulTiled M K N splits backendChoice outcome fun _ => []

end State

inductive Request where
  | loadBackend (backendChoice : Int) (outcome : LoadOutcome)
  | initializeNpublas (backendChoice : Int) (quiet : Bool) (outcome : LoadOutcome)
  | getOrCreateGraph (M K N : Nat) (useStaticWeights : Bool) (staticWeightsPtr : Option Nat)
      (outcome : BuildOutcome)
  | execute (key : String) (useStaticWeights : Bool) (outcome : ExecuteOutcome)
  | matmul (M K N : Nat) (backendChoice : Int) (useStaticWeights : Bool) (outcome : MatmulOutcome)
  | matmulTiled (M K N : Nat) (splits : Splits) (backendChoice : Int) (outcome : TiledOutcome)
  | unloadActiveBackend

-- Callers execute a cached graph only if it is valid.
def step (s : State) : Request → Option State
  | .loadBackend backendChoice outcome => some (s.loadBackend backendChoice outcome)
  | .initializeNpublas backendChoice quiet outcome =>
      some ((s.loadBackend backendChoice outcome).performDiagnosticsIfNeeded quiet)
  | .getOrCreateGraph M K N useStaticWeights staticWeightsPtr outcome =>
      (s.getOrCreateGraph M K N useStaticWeights staticWeightsPtr outcome).map Prod.fst
  | .execute key useStaticWeights outcome =>
      match s.graphCache.lookup key with
      | some graph => if graph.isValid then some (s.execute graph useStaticWeights outcome) else some s
      | none => some s
  | .matmul M K N backendChoice useStaticWeights outcome =>
      (s.matmulNpu M K N backendChoice useStaticWeights outcome).map Prod.fst
  | .matmulTiled M K N splits backendChoice outcome =>
      (s.matmulTiledNpu M K N splits backendChoice outcome).map Prod.fst
  | .unloadActiveBackend => some s.unloadActiveBackend

def start (outcome : LoadOutcome) : State := State.blank.loadBackend 1 outcome

section Sample

def fullTable : InterfaceTable :=
  { logCreate := true, logFree := true, deviceCreate := true, deviceFree := true,
    backendValidateOpConfig := true }

def loadsWith (table : InterfaceTable) : LoadOutcome :=
  { projectLibsDir := "libs", library := fun _ => .of table, logCreated := true,
    backendCreated := true, deviceCreated := true }

def tiledWith (build : BuildOutcome) (executed : Bool) : TiledOutcome :=
  { load := loadsWith fullTable, graph := build, executed := fun _ => executed }

def matmulWith (build : BuildOutcome) (executed : Bool) : MatmulOutcome :=
  { load := loadsWith fullTable, graph := build
    execute := { temporary := build, executed := executed }
    model := { loadable := fun _ => true, interpreter := true, outputBound := true }
    invoked := true }

end Sample

end NpuMatmul
