import NpuMatmul.Dispatch.MatmulPatch
import NpuMatmul.Shared.Axes
import NpuMatmul.Shared.Elementwise
import NpuMatmul.Training.Transformer

set_option autoImplicit false

-- The forward pass on tensors, as the calls of torch that make it up.
namespace NpuMatmul.Training

open NdArray RowMajor

section Tensors

variable {R : Type}

abbrev TorchMatmul (R : Type) := NdArray R → NdArray R → Dispatch R (NdArray R)

def cpuTensor (a : NdArray R) : TorchTensor R := { a with isCuda := false, isFloat32 := true }

-- patched_with_dsp for the choice 2, and matmul_patch itself for none.
def patchedMatmul [Zero R] (settings : Settings) (backends : Backends R) (frames : Nat)
    (backendChoice : Option Int) : TorchMatmul R := fun a b =>
  matmulPatch settings backends frames (cpuTensor a) (cpuTensor b) none backendChoice

def vectorTensor (size : Nat) (v : Nat → R) : NdArray R :=
  { shape := [size], entry := fun index => v (index.getD 0 0) }

def matrixTensor (rows columns : Nat) (m : Nat → Nat → R) : NdArray R :=
  { shape := [rows, columns], entry := fun index => m (index.getD 0 0) (index.getD 1 0) }

-- torch.stack of rows of token numbers
def stackTokens : List (List Nat) → Option (NdArray Nat)
  | [] => none
  | row :: rows =>
      if ∀ other ∈ rows, other.length = row.length then
        some (matrixTensor (rows.length + 1) row.length (TinyTransformer.tokens (row :: rows)))
      else none

-- nn.Embedding
def embed (entries features : Nat) (weight : Nat → Nat → R) (idx : NdArray Nat) :
    Option (NdArray R) :=
  if ∀ position < idx.shape.prod, idx.entry (unravel idx.shape position) < entries then
    some { shape := idx.shape ++ [features]
           entry := fun index => weight (idx.entry index.dropLast) (index.getLastD 0) }
  else none

-- torch.triu(torch.ones(T, T), diagonal=1).bool()
def causalMask (T : Nat) : NdArray Bool := matrixTensor T T fun t s => decide (t + 1 ≤ s)

def maskedFill (scores : NdArray R) (mask : NdArray Bool) : Option (NdArray (Option R)) :=
  scores.update (fun score masked => if masked then none else some score) mask

end Tensors

section Model

variable {R : Type} [Field R] (p : Primitives R) (matmul : TorchMatmul R)

def softmaxLast (scores : NdArray (Option R)) : NdArray R :=
  let weight (index : List Nat) : R := TransformerBlock.expWeight p (scores.entry index)
  { shape := scores.shape
    entry := fun index => weight index /
      ∑ s ∈ Finset.range (scores.shape.getLastD 0), weight (index.dropLast ++ [s]) }

def DSPLinear.run {inFeatures outFeatures : Nat} (self : DSPLinear R inFeatures outFeatures)
    (x : NdArray R) : Dispatch R (NdArray R) := do
  let out ← matmul x (matrixTensor outFeatures inFeatures self.weight).transposeLast
  match self.bias with
  | none => pure out
  | some bias => .lift (out.combine (· + ·) (vectorTensor outFeatures bias))

namespace TransformerBlock

variable {dModel nHeads dMlp : Nat} (self : TransformerBlock R dModel nHeads dMlp)

-- proj(x).view(B, T, n_heads, head_dim).transpose(1, 2)
def runHeads (proj : DSPLinear R dModel dModel) (x : NdArray R) (B T : Nat) :
    Dispatch R (NdArray R) := do
  let y ← proj.run matmul x
  let y ← .lift (y.reshape [B, T, nHeads, self.headDim])
  pure (y.transpose 1)

def runAttention (x : NdArray R) (B T C : Nat) : Dispatch R (NdArray R) := do
  let q ← self.runHeads matmul self.qProj x B T
  let k ← self.runHeads matmul self.kProj x B T
  let v ← self.runHeads matmul self.vProj x B T
  let scores ← matmul q k.transposeLast
  let attWeights := scores.map (· * p.rsqrt self.headDim)
  let attWeights ← .lift (maskedFill attWeights (causalMask T))
  let attOut ← matmul (softmaxLast p attWeights) v
  .lift ((attOut.transpose 1).reshape [B, T, C])

def run (x : NdArray R) : Dispatch R (NdArray R) :=
  match x.shape with
  | [B, T, C] => do
      let attOut ← self.runAttention p matmul x B T C
      let projected ← self.outProj.run matmul attOut
      let x ← .lift (x.combine (· + ·) projected)
      let hidden ← self.mlpL1.run matmul x
      let mlpOut ← self.mlpL2.run matmul (hidden.map p.gelu)
      .lift (x.combine (· + ·) mlpOut)
  | _ => .raised

end TransformerBlock

def LayerNorm.run {features : Nat} (self : LayerNorm R features) (x : NdArray R) : NdArray R :=
  { shape := x.shape
    entry := fun index =>
      self.forward p (fun c => x.entry (index.dropLast ++ [c])) (index.getLastD 0) }

namespace TinyTransformer

variable (self : TinyTransformer R)

def runEmbedding (idx : NdArray Nat) (T : Nat) : Option (NdArray R) := do
  let token ← embed self.vocabSize self.dModel self.tokenEmbedding idx
  let pos := (vectorTensor T id).unsqueeze 0
  let position ← embed self.blockSize self.dModel self.posEmbedding pos
  token.combine (· + ·) position

def run (idx : NdArray Nat) : Dispatch R (NdArray R) :=
  match idx.shape with
  | [_, T] => do
      let x ← .lift (self.runEmbedding idx T)
      let x ← self.layers.foldlM (fun x layer => layer.run p matmul x) x
      self.lmHead.run matmul (self.lnFinal.run p x)
  | _ => .raised

-- The mean of no rows is nan, which is none.
def meanCrossEntropy (logitsFlat : NdArray R) (targetsFlat : NdArray Nat) : Option R :=
  match logitsFlat.shape with
  | [rows, C] =>
      if targetsFlat.shape = [rows] ∧ 0 < rows ∧ ∀ i < rows, targetsFlat.entry [i] < C then
        let total := ∑ i ∈ Finset.range rows,
          crossEntropy p C (fun c => logitsFlat.entry [i, c]) (targetsFlat.entry [i])
        some (total / (rows : R))
      else none
  | _ => none

def runLoss (idx targets : NdArray Nat) : Dispatch R R := do
  let logits ← self.run p matmul idx
  match logits.shape with
  | [B, T, C] => do
      let logitsFlat ← .lift (logits.reshape [B * T, C])
      let targetsFlat ← .lift (targets.reshape [B * T])
      .lift (meanCrossEntropy p logitsFlat targetsFlat)
  | _ => .raised

end TinyTransformer

end Model

end NpuMatmul.Training
