import NpuMatmul.Dispatch.Forward

set_option autoImplicit false

namespace NpuMatmul

open NdArray

variable {R : Type}

def TorchTensor.holding (a : TorchTensor R) (contents : NdArray R) : TorchTensor R :=
  { a with toNdArray := contents }

def padded (size : Nat) : Nat := (size + 3) / 4 * 4

def handBack (out : Option (NdArray R)) (res : NdArray R) : Dispatch R (NdArray R) :=
  match out with
  | none => pure res
  | some out => .lift (out.copy res)

section Cases

variable (recurse : TorchTensor R → TorchTensor R → Dispatch R (NdArray R)) (a b : TorchTensor R)

def matmulMatrices [Zero R] (apply : NdArray R → NdArray R → Dispatch R (NdArray R)) :
    Dispatch R (NdArray R) :=
  match a.shape, b.shape with
  | [m, k], [_, n] =>
      if padded m ≠ m ∨ padded k ≠ k ∨ padded n ≠ n then do
        let aPadded ← .lift ((zeros [padded m, padded k]).assign [m, k] a.toNdArray)
        let bPadded ← .lift ((zeros [padded k, padded n]).assign [k, n] b.toNdArray)
        let resPadded ← recurse (a.holding aPadded) (b.holding bPadded)
        pure (resPadded.crop [m, n])
      else apply a.toNdArray b.toNdArray
  | _, _ => .raised

def matmulRows : Dispatch R (NdArray R) := do
  let columnsA ← .lift (fromEnd a.shape 1)
  let columnsB ← .lift (fromEnd b.shape 1)
  let aReshaped ← .lift (a.reshapeRows [columnsA])
  let res ← recurse (a.holding aReshaped) b
  .lift (res.reshape (a.shape.dropLast ++ [columnsB]))

-- The body of the try statement: one product for each index of the broadcast batch.
def matmulSlices : Dispatch R (NdArray R) := do
  let broadcastBatch ← .lift (broadcastShapes (leading a.shape) (leading b.shape))
  let aExpanded ← .lift (a.expand (broadcastBatch ++ lastTwo a.shape))
  let bExpanded ← .lift (b.expand (broadcastBatch ++ lastTwo b.shape))
  let rowsA ← .lift (fromEnd a.shape 2)
  let columnsA ← .lift (fromEnd a.shape 1)
  let aFlat ← .lift (aExpanded.reshapeRows [rowsA, columnsA])
  let rowsB ← .lift (fromEnd b.shape 2)
  let columnsB ← .lift (fromEnd b.shape 1)
  let bFlat ← .lift (bExpanded.reshapeRows [rowsB, columnsB])
  let results ← Traced.each
    (fun i => do
      let aSlice ← .lift (aFlat.select i)
      let bSlice ← .lift (bFlat.select i)
      recurse (a.holding aSlice) (b.holding bSlice))
    (aFlat.shape.headD 0)
  let stacked ← .lift (stack results)
  .lift (stacked.reshape (broadcastBatch ++ [rowsA, columnsB]))

end Cases

-- frames is what the interpreter allows of recursion: without a frame a call raises. The case of a
-- matrix and a vector does not return: it goes on to the try statement.
def matmulPatch [Zero R] (settings : Settings) (backends : Backends R) :
    Nat → TorchTensor R → TorchTensor R → Option (NdArray R) → Option Int → Dispatch R (NdArray R)
  | 0, _, _, _, _ => .raised
  | frames + 1, a, b, out, backendChoice =>
      let backendChoice := backendChoice.getD settings.defaultBackendChoice
      let recurse a b := matmulPatch settings backends frames a b none (some backendChoice)
      let original out := .lift (backends.matmulOriginal a b out)
      let slices out := ((matmulSlices recurse a b) >>= handBack out).attempt (original out)
      if a.isCuda || b.isCuda || !a.isFloat32 || !b.isFloat32 then original out
      else
        match a.shape.length, b.shape.length with
        | 1, 2 => do
            let res ← recurse (a.holding (a.unsqueeze 0)) b
            handBack out (res.squeeze 0)
        | 2, 1 => do
            let res ← recurse a (b.holding (b.unsqueeze 1))
            match out with
            | none => slices none
            | some out => do
                let out ← .lift (out.copy (res.squeeze 1))
                slices (some out)
        | 2, 2 =>
            matmulMatrices recurse a b (forward settings backends backendChoice) >>= handBack out
        | dimA, dimB =>
            if 2 < dimA && dimB = 2 then matmulRows recurse a b >>= handBack out
            else slices out

end NpuMatmul
