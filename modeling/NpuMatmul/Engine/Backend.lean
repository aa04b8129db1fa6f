import Mathlib.Tactic.Simps.Basic
import NpuMatmul.Engine.Qnn

set_option autoImplicit false

namespace NpuMatmul

structure CachedGraph where
  isValid : Bool
  contextHandle : Option Handle
  graphHandle : Option GraphHandle
  M : Nat
  K : Nat
  N : Nat
deriving DecidableEq, Repr

-- A TFLite model of the models vector. outputBound says that SetCustomAllocationForTensor gave the
-- interpreter persist_out as its output buffer.
structure Model where
  M : Nat
  K : Nat
  N : Nat
  backendChoice : Int
  interpreter : Bool
  outputBound : Bool
deriving DecidableEq, Repr

-- The engine, the two caches beside it, and what happened so far: the calls, the newest first, the
-- libraries asked for, the handles handed out and the uses of the TFLite fallback.
structure State where
  backendContainer : QnnLoadedBackendContainer
  backendHandle : Option Handle
  deviceHandle : Option Handle
  logHandle : Option Handle
  graphCache : List (String × CachedGraph)
  diagnosticsPerformed : Bool
  currentBackendChoice : Int
  globalDynamicFcGraphs : List (String × CachedGraph)
  models : List Model
  calls : List Call
  loadCount : Nat
  serial : Nat
  fallbacks : Nat

structure LoadOutcome where
  projectLibsDir : String
  library : String → QnnLoadedBackendContainer
  logCreated : Bool
  backendCreated : Bool
  deviceCreated : Bool

namespace State

def blank : State :=
  { backendContainer := .empty, backendHandle := none, deviceHandle := none, logHandle := none,
    graphCache := [], diagnosticsPerformed := false, currentBackendChoice := -1,
    globalDynamicFcGraphs := [], models := [], calls := [],
    loadCount := 0, serial := 0, fallbacks := 0 }

def interface (s : State) : Option InterfaceTable := s.backendContainer.interfaceProviderTable

def isLoaded (s : State) : Bool := s.backendHandle.isSome

@[simps] def call (s : State) (made : Call) : State := { s with calls := made :: s.calls }

def fresh (s : State) : Handle := { library := s.loadCount, serial := s.serial }

def created (s : State) (succeeded : Bool) : Option Handle :=
  if succeeded then some s.fresh else none

section Unload

def freeContexts : List (String × CachedGraph) → List Call → List Call
  | [], calls => calls
  | (_, graph) :: rest, calls => freeContexts rest (.contextFree graph.contextHandle :: calls)

def clearGraphs (s : State) : State :=
  { s with calls := freeContexts s.graphCache s.calls, graphCache := [] }

-- A handle is freed unless it is null or the interface lacks the entry.
def released (handle : Option Handle) (entry : Bool) (free : Handle → Call) (calls : List Call) :
    List Call :=
  match handle, entry with
  | some handle, true => free handle :: calls
  | _, _ => calls

def freeDevice (s : State) (qnn : InterfaceTable) : State :=
  { s with
    calls := released s.deviceHandle qnn.deviceFree .deviceFree s.calls
    deviceHandle := if qnn.deviceFree then none else s.deviceHandle }

def freeBackend (s : State) : State :=
  { s with
    calls := released s.backendHandle true .backendFree s.calls
    backendHandle := none }

def freeLog (s : State) (qnn : InterfaceTable) : State :=
  { s with
    calls := released s.logHandle qnn.logFree .logFree s.calls
    logHandle := if qnn.logFree then none else s.logHandle }

def freeHandles (s : State) : State :=
  match s.interface with
  | some qnn => (((s.clearGraphs.freeDevice qnn).freeBackend).freeLog qnn)
  | none => s

def unloadQnnBackendSharedLibrary (s : State) : State :=
  { s with
    calls :=
      if s.backendContainer.librarySharedObjectHandle then .dlclose :: s.calls else s.calls
    backendContainer := .empty }

def unloadActiveBackend (s : State) : State :=
  s.freeHandles.unloadQnnBackendSharedLibrary

end Unload

section Load

def libraryName (backendChoice : Int) : String :=
  if backendChoice = 1 ∨ backendChoice = 7 then "libQnnHta.so"
  else if backendChoice = 2 then "libQnnDsp.so"
  else if backendChoice = 3 then "libQnnHtp.so"
  else if backendChoice = 4 then "libQnnGpu.so"
  else "libQnnHta.so"

-- The container is overwritten, never closed first.
def loadQnnBackendSharedLibrary (s : State) (outcome : LoadOutcome) (path : String) : State :=
  { s.call .dlopen with
    backendContainer := outcome.library path, loadCount := s.loadCount + 1 }

def loadLibrary (s : State) (backendChoice : Int) (outcome : LoadOutcome) : State :=
  let s := s.loadQnnBackendSharedLibrary outcome
    (outcome.projectLibsDir ++ "/" ++ libraryName backendChoice)
  if s.interface.isSome then s
  else s.loadQnnBackendSharedLibrary outcome ("/data/local/tmp/" ++ libraryName backendChoice)

-- A creation that fails leaves the handle as it was.
def createLog (s : State) (qnn : InterfaceTable) (succeeded : Bool) : State :=
  { s with
    calls := if qnn.logCreate then .logCreate (s.created succeeded) :: s.calls else s.calls
    logHandle := (s.created (qnn.logCreate && succeeded)).or s.logHandle
    serial := s.serial + 1 }

def createBackend (s : State) (succeeded : Bool) : State :=
  { s with
    calls := .backendCreate s.logHandle (s.created succeeded) :: s.calls
    backendHandle := (s.created succeeded).or s.backendHandle
    serial := s.serial + 1 }

def createDevice (s : State) (qnn : InterfaceTable) (succeeded : Bool) : State :=
  { s with
    calls := if qnn.deviceCreate then .deviceCreate (s.created succeeded) :: s.calls else s.calls
    deviceHandle := (s.created (qnn.deviceCreate && succeeded)).or s.deviceHandle
    serial := s.serial + 1 }

def createHandles (s : State) (outcome : LoadOutcome) : State :=
  match s.interface with
  | some qnn =>
      ((s.createLog qnn outcome.logCreated).createBackend outcome.backendCreated).createDevice qnn
        outcome.deviceCreated
  | none => s

def serves (s : State) (backendChoice : Int) : Bool :=
  decide (s.currentBackendChoice = backendChoice) && s.isLoaded

def loadBackend (s : State) (backendChoice : Int) (outcome : LoadOutcome) : State :=
  if s.serves backendChoice then s
  else
    let s := { s.unloadActiveBackend with currentBackendChoice := backendChoice }
    let s := (s.loadLibrary backendChoice outcome).createHandles outcome
    { s with diagnosticsPerformed := false }

end Load

def performDiagnosticsIfNeeded (s : State) (quiet : Bool) : State :=
  if s.diagnosticsPerformed || !s.isLoaded then s
  else
    let s := { s with diagnosticsPerformed := true }
    match s.interface with
    | some qnn =>
        if !quiet && qnn.backendValidateOpConfig then
          s.call (.backendValidateOpConfig s.backendHandle)
        else s
    | none => s

end State

end NpuMatmul
