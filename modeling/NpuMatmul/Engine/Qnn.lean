import NpuMatmul.Shared.Ownership

set_option autoImplicit false

namespace NpuMatmul

open Ownership

-- Handles are numbered in the order they are handed out; none is a null handle.
structure Handle where
  library : Nat
  serial : Nat
deriving DecidableEq, Repr

structure GraphHandle where
  context : Handle
  serial : Nat
deriving DecidableEq, Repr

-- The entries of QnnInterface_t that the engine tests before it calls them.
structure InterfaceTable where
  logCreate : Bool
  logFree : Bool
  deviceCreate : Bool
  deviceFree : Bool
  backendValidateOpConfig : Bool
deriving DecidableEq, Repr

structure QnnLoadedBackendContainer where
  librarySharedObjectHandle : Bool
  interfaceProviderTable : Option InterfaceTable
  provided : interfaceProviderTable.isSome → librarySharedObjectHandle = true
deriving DecidableEq, Repr

def QnnLoadedBackendContainer.empty : QnnLoadedBackendContainer :=
  { librarySharedObjectHandle := false, interfaceProviderTable := none, provided := by simp }

def QnnLoadedBackendContainer.of (table : InterfaceTable) : QnnLoadedBackendContainer :=
  { librarySharedObjectHandle := true, interfaceProviderTable := some table, provided := by simp }

-- A call that takes effect outside the process's own memory, with what it was passed and what it
-- returned. The tensors and the node of a graph are added between graphCreate and graphFinalize,
-- with the same graph handle.
inductive Call where
  | dlopen
  | dlclose
  | logCreate (log : Option Handle)
  | backendCreate (log : Option Handle) (backend : Option Handle)
  | deviceCreate (device : Option Handle)
  | contextCreate (backend device : Option Handle) (context : Option Handle)
  | graphCreate (context : Option Handle) (graph : Option GraphHandle)
  | graphFinalize (graph : Option GraphHandle)
  | graphExecute (graph : Option GraphHandle) (executed : Bool)
  | backendValidateOpConfig (backend : Option Handle)
  | contextFree (context : Option Handle)
  | deviceFree (device : Handle)
  | backendFree (backend : Handle)
  | logFree (log : Handle)
  -- Not a call: an entry found in one of the two graph caches.
  | cacheHit (context : Option Handle) (graph : Option GraphHandle)
deriving DecidableEq, Repr

inductive Resource where
  | log (handle : Handle)
  | backend (handle : Handle)
  | device (handle : Handle)
  | context (handle : Handle)
  | graph (handle : GraphHandle)
deriving DecidableEq, Repr

def Resource.root : Resource → Handle
  | .log handle | .backend handle | .device handle | .context handle => handle
  | .graph handle => handle.context

def Call.makes : Call → Resource → Prop
  | .logCreate log, .log handle => log = some handle
  | .backendCreate _ backend, .backend handle => backend = some handle
  | .deviceCreate device, .device handle => device = some handle
  | .contextCreate _ _ context, .context handle => context = some handle
  | .graphCreate _ graph, .graph handle => graph = some handle
  | _, _ => False

-- A graph goes with its context.
def Call.frees : Call → Resource → Prop
  | .logFree log, .log handle => log = handle
  | .backendFree backend, .backend handle => backend = handle
  | .deviceFree device, .device handle => device = handle
  | .contextFree context, .context handle => context = some handle
  | .contextFree context, .graph handle => context = some handle.context
  | _, _ => False

def Call.switches : Call → Prop
  | .dlopen | .dlclose => True
  | _ => False

def current : Ledger Call Resource where
  makes := Call.makes
  ends call resource := call.switches ∨ call.frees resource
  apart call resource made := by
    cases call <;> cases resource <;> simp_all [Call.makes, Call.switches, Call.frees]

def handedOut : Ledger Call Resource where
  makes := Call.makes
  ends call _ := call.switches
  apart call resource made := by
    cases call <;> cases resource <;> simp_all [Call.makes, Call.switches]

-- The handles a call may be given: the backend and the graph are required, a device or a log may
-- be null. What a cache serves was built by the loaded instance.
def HandlesCurrent (past : List Call) : Call → Prop
  | .backendCreate log _ => ∀ handle, log = some handle → Held current past (.log handle)
  | .contextCreate backend device _ =>
      (∃ handle, backend = some handle ∧ Held current past (.backend handle)) ∧
        ∀ handle, device = some handle → Held current past (.device handle)
  | .backendValidateOpConfig backend =>
      ∃ handle, backend = some handle ∧ Held current past (.backend handle)
  | .graphExecute graph _ => ∃ handle, graph = some handle ∧ Held current past (.graph handle)
  | .deviceFree device => Held current past (.device device)
  | .backendFree backend => Held current past (.backend backend)
  | .logFree log => Held current past (.log log)
  | .cacheHit context graph =>
      (∀ handle, context = some handle → Held handedOut past (.context handle)) ∧
        ∀ handle, graph = some handle → Held handedOut past (.graph handle)
  | _ => True

section Contexts

def Call.contextMade : Call → Handle → Prop
  | .contextCreate _ _ context, handle => context = some handle
  | _, _ => False

def Call.contextFreed : Call → Handle → Prop
  | .contextFree context, handle => context = some handle
  | _, _ => False

def Call.contextUsed : Call → Handle → Prop
  | .contextFree context, handle => context = some handle
  | .graphCreate context _, handle => context = some handle
  | .graphFinalize graph, handle | .graphExecute graph _, handle =>
      graph.map GraphHandle.context = some handle
  | _, _ => False

def Call.closes : Call → Prop
  | .backendFree _ | .dlclose => True
  | _ => False

def outstanding : Ledger Call Handle where
  makes := Call.contextMade
  ends := Call.contextFreed
  apart call handle made := by
    cases call <;> simp_all [Call.contextMade, Call.contextFreed]

end Contexts

end NpuMatmul
