import NpuMatmul.Pipeline.FullyConnected
import NpuMatmul.Shared.Extraction

set_option autoImplicit false

namespace NpuMatmul

open Extraction

def uint32 (z : Int) : Nat := (z % 2 ^ 32).toNat

structure MatMulGraph where
  tensorA : Tensor
  tensorB : Tensor
  tensorC : Tensor
  tensorBias : Tensor
deriving DecidableEq, Repr

def matMulGraph (M K N : Int) : MatMulGraph :=
  { tensorA :=
      { dimensions := [uint32 M, uint32 K], dataType := .ufixedPoint8, scale := 1, offset := 127 }
    tensorB := tensorB (uint32 N) (uint32 K)
    tensorC := tensorC (uint32 M) (uint32 N)
    tensorBias := tensorBias (uint32 N) }

def binFilename (M K N : Int) : String := s!"matmuls/matmul_{M}x{K}_{K}x{N}.bin"

inductive ServerHandle where
  | backend
  | device
  | context
deriving DecidableEq, Repr

inductive ServerEvent where
  | creates (handle : ServerHandle)
  | frees (handle : ServerHandle)
  | saves (filename : String) (bytes : List Byte)
deriving DecidableEq, Repr

-- How the calls of one compilation fare. deviceCreated says that there is a deviceCreate and that
-- it gives a handle, deviceFree that there is one, the two allocated that a vector does not throw
-- bad_alloc, and written how many bytes reach the file.
structure CompileOutcome where
  backendCreated : Bool
  deviceCreated : Bool
  deviceFree : Bool
  contextCreated : Bool
  graphCreated : Bool
  biasAllocated : Bool
  nodeAdded : Bool
  graphFinalized : Bool
  binarySize : Option Nat
  bufferAllocated : Bool
  contextBinary : MatMulGraph → Option (List Byte)
  fileOpened : Bool
  written : Nat

-- The part of compileMatMulGraph after graphFinalize, none where an exception leaves it.
def saveBinary (outcome : CompileOutcome) (M K N : Int) : Option (List ServerEvent) :=
  match outcome.binarySize with
  | none | some 0 => some []
  | some (_ + 1) =>
      if !outcome.bufferAllocated then none
      else
        match outcome.contextBinary (matMulGraph M K N) with
        | none => some []
        | some binary =>
            if outcome.fileOpened then
              some [.saves (binFilename M K N) (binary.take outcome.written)]
            else some []

def CompileOutcome.created (outcome : CompileOutcome) : List ServerEvent :=
  if outcome.deviceCreated then [.creates .backend, .creates .device] else [.creates .backend]

def CompileOutcome.freed (outcome : CompileOutcome) : List ServerEvent :=
  if outcome.deviceCreated && outcome.deviceFree then [.frees .device, .frees .backend]
  else [.frees .backend]

def compileMatMulGraph (outcome : CompileOutcome) (M K N : Int) :
    Option Bool × List ServerEvent :=
  if !outcome.backendCreated then (some false, [])
  else
    if !outcome.contextCreated then (some false, outcome.created ++ outcome.freed)
    else
      let created := outcome.created ++ [.creates .context]
      let freed := .frees .context :: outcome.freed
      if !outcome.graphCreated then (some false, created ++ freed)
      -- The length of localBias is N as a size_t, which no vector has if N is negative.
      else if N < 0 || !outcome.biasAllocated then (none, created)
      else if !outcome.nodeAdded then (some false, created ++ freed)
      else if !outcome.graphFinalized then (some false, created ++ freed)
      else
        match saveBinary outcome M K N with
        | none => (none, created)
        | some saved => (some true, created ++ saved ++ freed)

inductive Reply where
  | ok
  | error
deriving DecidableEq, Repr

structure Iteration where
  compiled : Option (Int × Int × Int)
  events : List ServerEvent
  reply : Option Reply
  closed : Bool

def generate : List Byte := ascii "generate"

def requestSizes (req : List Byte) : Int × Int × Int × Int :=
  let (_, ss) := word { rest := req, good := true }
  let (M, ss) := int 0 ss
  let (K, ss) := int 0 ss
  let (N, ss) := int 0 ss
  let (backendChoice, _) := int 1 ss
  (M, K, N, backendChoice)

-- The string made from the buffer: at most 1023 bytes are read of those that have arrived, and the
-- first zero byte ends it.
def received (sent : List Byte) (arrived : Nat) : List Byte :=
  (sent.take (min arrived 1023)).takeWhile fun b => decide (b ≠ 0)

-- A read that fails or meets the end of the connection has no bytes.
def acceptIteration (sent : List Byte) (arrived : Nat) (outcome : CompileOutcome) : Iteration :=
  let req := received sent arrived
  if generate.isPrefixOf req then
    let (M, K, N, _) := requestSizes req
    match compileMatMulGraph outcome M K N with
    | (none, events) =>
        { compiled := some (M, K, N), events := events, reply := none, closed := false }
    | (some success, events) =>
        { compiled := some (M, K, N), events := events
          reply := some (if success then .ok else .error), closed := true }
  else { compiled := none, events := [], reply := none, closed := true }

-- The bytes say generate M K N or generate M K N backend, with positive sizes.
def AsksFor (sent : List Byte) (M K N : Int) : Prop :=
  0 < M ∧ 0 < K ∧ 0 < N ∧ ∃ first second third rest,
    words sent = generate :: first :: second :: third :: rest ∧ literal first = some M ∧
      literal second = some K ∧ literal third = some N ∧
      (rest = [] ∨ ∃ last backendChoice, rest = [last] ∧ literal last = some backendChoice)

def FreedOnce (events : List ServerEvent) : Prop :=
  ∀ handle, (.creates handle ∈ events → events.count (.frees handle) = 1) ∧
    (.creates handle ∉ events → .frees handle ∉ events)

structure Iteration.Correct (iteration : Iteration) (sent : List Byte) (outcome : CompileOutcome) :
    Prop where
  survives : iteration.closed = true
  asked : iteration.compiled ≠ none → ∃ M K N, AsksFor sent M K N
  truthful : iteration.reply = some .ok → ∃ M K N, AsksFor sent M K N ∧
    ∃ binary, outcome.contextBinary (matMulGraph M K N) = some binary ∧
      .saves (binFilename M K N) binary ∈ iteration.events
  freed : FreedOnce iteration.events

end NpuMatmul
