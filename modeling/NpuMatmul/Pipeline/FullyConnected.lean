import Mathlib.Algebra.BigOperators.Intervals

set_option autoImplicit false

namespace NpuMatmul

inductive DataType where
  | ufixedPoint8
  | ufixedPoint16
  | sfixedPoint32
deriving DecidableEq, Repr

def getDataTypeSize : DataType → Nat
  | .ufixedPoint16 => 2
  | .sfixedPoint32 => 4
  | .ufixedPoint8 => 1

structure Tensor where
  dimensions : List Nat
  dataType : DataType
  scale : Int
  offset : Int
deriving DecidableEq, Repr

structure Operand where
  tensor : Tensor
  bytes : List (BitVec 8)
deriving DecidableEq, Repr

structure FullyConnectedCall where
  a : Operand
  b : Operand
  bias : Operand
  c : Tensor
deriving DecidableEq, Repr

-- The 16-bit words a successful graphExecute leaves in the output buffer.
abbrev Backend := FullyConnectedCall → Nat → BitVec 16

def tensorA (M K : Nat) : Tensor :=
  { dimensions := [M, K], dataType := .ufixedPoint16, scale := 1, offset := 127 }

def tensorB (N K : Nat) : Tensor :=
  { dimensions := [N, K], dataType := .ufixedPoint8, scale := 1, offset := 127 }

def tensorBias (N : Nat) : Tensor :=
  { dimensions := [N], dataType := .sfixedPoint32, scale := 1, offset := 0 }

def tensorC (M N : Nat) : Tensor :=
  { dimensions := [M, N], dataType := .ufixedPoint16, scale := 1, offset := 32768 }

def fullyConnectedCall (M K N : Nat) (bytesA bytesB : List (BitVec 8)) : FullyConnectedCall :=
  { a := { tensor := tensorA M K, bytes := bytesA }
    b := { tensor := tensorB N K, bytes := bytesB }
    bias := { tensor := tensorBias N, bytes := List.replicate (N * 4) 0 }
    c := tensorC M N }

def bytesOf (buffer : Nat → BitVec 8) (size : Nat) : List (BitVec 8) :=
  (List.range size).map buffer

-- A uint16_t buffer of size bytes, as the backend reads it: the low byte of each word first.
def wordBytes (buffer : Nat → BitVec 16) (position : Nat) : BitVec 8 :=
  if position % 2 = 0 then (buffer (position / 2)).setWidth 8
  else (buffer (position / 2) >>> 8).setWidth 8

def readWord (bytes : List (BitVec 8)) (index : Nat) : Nat :=
  (bytes.getD (2 * index) 0).toNat + 256 * (bytes.getD (2 * index + 1) 0).toNat

def readByte (bytes : List (BitVec 8)) (index : Nat) : Nat :=
  (bytes.getD index 0).toNat

-- The product of the two operands, each read with the zero point 127, on the output offset.
def centredProduct (K : Nat) (bytesA bytesB : List (BitVec 8)) (row col : Nat) : Int :=
  32768 + ∑ k ∈ Finset.range K,
    ((readWord bytesA (row * K + k) : Int) - 127) * ((readByte bytesB (col * K + k) : Int) - 127)

def ComputesProduct (backend : Backend) (M K N : Nat) (call : FullyConnectedCall) : Prop :=
  ∀ row < M, ∀ col < N, ((backend call (row * N + col)).toNat : Int) =
    centredProduct K call.a.bytes call.b.bytes row col

-- A backend that saturates: it computes the product wherever this fits sixteen bits.
def saturatingBackend : Backend := fun call index =>
  match call.a.tensor.dimensions, call.c.dimensions with
  | [_, K], [_, N] =>
      BitVec.ofInt 16 (max 0 (min 65535
        (centredProduct K call.a.bytes call.b.bytes (index / N) (index % N))))
  | _, _ => 0

theorem getD_bytesOf (buffer : Nat → BitVec 8) {size position : Nat} (below : position < size) :
    (bytesOf buffer size).getD position 0 = buffer position := by
  simp [bytesOf, below]

theorem readByte_bytesOf (buffer : Nat → BitVec 8) {size index : Nat} (below : index < size) :
    readByte (bytesOf buffer size) index = (buffer index).toNat := by
  rw [readByte, getD_bytesOf buffer below]

theorem readWord_wordBytes (buffer : Nat → BitVec 16) {count index : Nat} (below : index < count) :
    readWord (bytesOf (wordBytes buffer) (count * 2)) index = (buffer index).toNat := by
  have word := (buffer index).isLt
  have even : 2 * index % 2 = 0 := by omega
  have odd : ¬ (2 * index + 1) % 2 = 0 := by omega
  have lower : 2 * index / 2 = index := by omega
  have upper : (2 * index + 1) / 2 = index := by omega
  rw [readWord, getD_bytesOf _ (by omega), getD_bytesOf _ (by omega), wordBytes, wordBytes,
    if_pos even, if_neg odd, lower, upper]
  simp only [BitVec.toNat_setWidth, BitVec.toNat_ushiftRight, Nat.shiftRight_eq_div_pow]
  omega

theorem saturatingBackend_computes {M K N : Nat} {bytesA bytesB : List (BitVec 8)}
    (fits : ∀ row < M, ∀ col < N, 0 ≤ centredProduct K bytesA bytesB row col ∧
      centredProduct K bytesA bytesB row col ≤ 65535) :
    ComputesProduct saturatingBackend M K N (fullyConnectedCall M K N bytesA bytesB) := by
  intro row below col inside
  obtain ⟨low, high⟩ := fits row below col inside
  have quotient : (row * N + col) / N = row := by
    rw [Nat.mul_comm, Nat.mul_add_div (by omega), Nat.div_eq_of_lt inside, Nat.add_zero]
  have remainder : (row * N + col) % N = col := by
    rw [Nat.mul_comm, Nat.mul_add_mod, Nat.mod_eq_of_lt inside]
  simp only [saturatingBackend, fullyConnectedCall, tensorA, tensorC, quotient, remainder,
    BitVec.toNat_ofInt]
  omega

end NpuMatmul
