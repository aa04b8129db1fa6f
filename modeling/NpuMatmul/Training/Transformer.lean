import Mathlib.Algebra.BigOperators.Group.Finset.Basic
import Mathlib.Algebra.Field.Defs
import Mathlib.Data.List.Dedup

set_option autoImplicit false

namespace NpuMatmul.Training

section Tokens

-- sorted(list(set(text)))
def vocabulary (text : List Char) : List Char := text.dedup.mergeSort fun a b => decide (a ≤ b)

variable (chars : List Char)

-- A KeyError is none.
def charToId (c : Char) : Option Nat := if c ∈ chars then some (chars.idxOf c) else none

def encode (s : List Char) : Option (List Nat) := s.mapM (charToId chars)

def decode (ids : List Nat) : Option (List Char) := ids.mapM fun i => chars[i]?

end Tokens

def getBatch (data ix : List Nat) (blockSize : Nat) : List (List Nat) × List (List Nat) :=
  (ix.map fun i => (data.drop i).take blockSize, ix.map fun i => (data.drop (i + 1)).take blockSize)

-- What torch computes elementwise; rsqrt x is x ** -0.5.
structure Primitives (R : Type) where
  exp : R → R
  log : R → R
  gelu : R → R
  rsqrt : R → R

section Model

variable {R : Type} [Field R]

structure DSPLinear (R : Type) (inFeatures outFeatures : Nat) where
  weight : Nat → Nat → R
  bias : Option (Nat → R)

variable {inFeatures outFeatures : Nat}

abbrev Activations (R : Type) := Nat → Nat → Nat → R

def DSPLinear.forward (self : DSPLinear R inFeatures outFeatures) (x : Activations R) :
    Activations R := fun b t o =>
  let out := ∑ i ∈ Finset.range inFeatures, x b t i * self.weight o i
  match self.bias with
  | none => out
  | some bias => out + bias o

structure TransformerBlock (R : Type) (dModel nHeads dMlp : Nat) where
  qProj : DSPLinear R dModel dModel
  kProj : DSPLinear R dModel dModel
  vProj : DSPLinear R dModel dModel
  outProj : DSPLinear R dModel dModel
  mlpL1 : DSPLinear R dModel dMlp
  mlpL2 : DSPLinear R dMlp dModel
  divides : nHeads ∣ dModel

namespace TransformerBlock

variable {dModel nHeads dMlp : Nat} (p : Primitives R) (self : TransformerBlock R dModel nHeads dMlp)

def headDim (_ : TransformerBlock R dModel nHeads dMlp) : Nat := dModel / nHeads

-- view(B, T, n_heads, head_dim).transpose(1, 2)
def heads (y : Activations R) (b h t d : Nat) : R := y b t (h * self.headDim + d)

-- The scores after masked_fill, with none for -inf.
def attWeights (x : Activations R) (b h t s : Nat) : Option R :=
  let q := self.heads (self.qProj.forward x)
  let k := self.heads (self.kProj.forward x)
  if t + 1 ≤ s then none
  else some ((∑ d ∈ Finset.range self.headDim, q b h t d * k b h s d) * p.rsqrt self.headDim)

def expWeight (score : Option R) : R := score.elim 0 p.exp

-- softmax over the last of T positions
def attProbs (T : Nat) (x : Activations R) (b h t s : Nat) : R :=
  expWeight p (self.attWeights p x b h t s) /
    ∑ s' ∈ Finset.range T, expWeight p (self.attWeights p x b h t s')

def attOut (T : Nat) (x : Activations R) (b h t d : Nat) : R :=
  let v := self.heads (self.vProj.forward x)
  ∑ s ∈ Finset.range T, self.attProbs p T x b h t s * v b h s d

def forward (T : Nat) (x : Activations R) : Activations R :=
  let att : Activations R := fun b t c =>
    self.attOut p T x b (c / self.headDim) t (c % self.headDim)
  let projected := self.outProj.forward att
  let x : Activations R := fun b t c => x b t c + projected b t c
  let hidden : Activations R := fun b t c => p.gelu (self.mlpL1.forward x b t c)
  let mlpOut := self.mlpL2.forward hidden
  fun b t c => x b t c + mlpOut b t c

end TransformerBlock

structure LayerNorm (R : Type) (features : Nat) where
  weight : Nat → R
  bias : Nat → R
  eps : R

def LayerNorm.forward {features : Nat} (p : Primitives R) (self : LayerNorm R features)
    (row : Nat → R) (c : Nat) : R :=
  let mean := (∑ i ∈ Finset.range features, row i) / features
  let variance := (∑ i ∈ Finset.range features, (row i - mean) * (row i - mean)) / features
  (row c - mean) * p.rsqrt (variance + self.eps) * self.weight c + self.bias c

structure TinyTransformer (R : Type) where
  vocabSize : Nat
  dModel : Nat
  blockSize : Nat
  nHeads : Nat
  dMlp : Nat
  tokenEmbedding : Nat → Nat → R
  posEmbedding : Nat → Nat → R
  layers : List (TransformerBlock R dModel nHeads dMlp)
  lnFinal : LayerNorm R dModel
  lmHead : DSPLinear R dModel vocabSize

namespace TinyTransformer

variable (p : Primitives R) (self : TinyTransformer R)

def logits (T : Nat) (idx : Nat → Nat → Nat) : Activations R :=
  let x : Activations R := fun b t c => self.tokenEmbedding (idx b t) c + self.posEmbedding t c
  let x := self.layers.foldl (fun x layer => layer.forward p T x) x
  self.lmHead.forward fun b t => self.lnFinal.forward p (x b t)

def tokens (rows : List (List Nat)) (b t : Nat) : Nat := (rows.getD b []).getD t 0

-- An embedding without an entry raises; so does a batch whose rows differ in length.
def accepts (rows : List (List Nat)) (T : Nat) : Prop :=
  T ≤ self.blockSize ∧ ∀ row ∈ rows, row.length = T ∧ ∀ token ∈ row, token < self.vocabSize

instance (rows : List (List Nat)) (T : Nat) : Decidable (self.accepts rows T) :=
  inferInstanceAs (Decidable (_ ∧ _))

def forward (rows : List (List Nat)) (T : Nat) : Option (Activations R) :=
  if self.accepts rows T then some (self.logits p T (tokens rows)) else none

def crossEntropy (p : Primitives R) (classes : Nat) (row : Nat → R) (target : Nat) : R :=
  p.log (∑ c ∈ Finset.range classes, p.exp (row c)) - row target

-- The mean over the B * T rows of the flattened logits, each against its flattened target. A stack
-- of no rows raises, the mean over T = 0 positions is nan: both are none.
def loss (rows targets : List (List Nat)) (T : Nat) : Option R := do
  let logits ← self.forward p rows T
  if 0 < rows.length * T ∧ targets.length = rows.length ∧ self.accepts targets T then
    let total := ∑ i ∈ Finset.range (rows.length * T),
      crossEntropy p self.vocabSize (logits (i / T) (i % T)) (tokens targets (i / T) (i % T))
    some (total / ((rows.length * T : Nat) : R))
  else none

end TinyTransformer

end Model

end NpuMatmul.Training
