import NpuMatmul.Dispatch.Backward
import NpuMatmul.Dispatch.Oblivious
import NpuMatmul.Training.TensorForward

set_option autoImplicit false

namespace NpuMatmul.Training

open NdArray Traced

section Architecture

variable {R : Type} {i o i' o' d h m d' h' m' : Nat}

structure SameLinear (layer : DSPLinear R i o) (other : DSPLinear R i' o') : Prop where
  inFeatures : i = i'
  outFeatures : o = o'
  bias : layer.bias.isSome = other.bias.isSome

structure SameBlock (block : TransformerBlock R d h m) (other : TransformerBlock R d' h' m') :
    Prop where
  heads : h = h'
  qProj : SameLinear block.qProj other.qProj
  kProj : SameLinear block.kProj other.kProj
  vProj : SameLinear block.vProj other.vProj
  outProj : SameLinear block.outProj other.outProj
  mlpL1 : SameLinear block.mlpL1 other.mlpL1
  mlpL2 : SameLinear block.mlpL2 other.mlpL2

structure SameArchitecture (model other : TinyTransformer R) : Prop where
  dModel : model.dModel = other.dModel
  layers : List.Forall₂ SameBlock model.layers other.layers
  lmHead : SameLinear model.lmHead other.lmHead

end Architecture

section Code

variable {R : Type}

-- What one step of the loop of main() works on, with the gradients that autograd has for the
-- outputs of its kernels, each by the number of calls that come after the kernel's.
structure TrainingStep (R : Type) where
  model : TinyTransformer R
  idx : NdArray Nat
  targets : NdArray Nat
  backends : Backends R
  gradient : Nat → NdArray R

namespace TrainingStep

variable [Field R] (settings : Settings) (frames : Nat) (reached : Nat → Bool)
  (step : TrainingStep R)

-- loss.backward(): autograd runs NPUMatMulFunction.backward of the calls that the loss has reached,
-- the last call first.
def backwardPass : List (ExtensionCall R) → Dispatch R Unit
  | [] => pure ()
  | call :: rest => do
      backwardPass rest
      let position := rest.length
      if reached position then
        let ctx : MatMulContext R :=
          { inputA := cpuTensor call.a, inputB := cpuTensor call.b
            backendChoice := call.backendChoice }
        let _ ← backward settings step.backends frames ctx (cpuTensor (step.gradient position))
        pure ()
      else pure ()

-- logits, loss = model(x, y)
def forwardPass (p : Primitives R) (backendChoice : Option Int) : Dispatch R R :=
  step.model.runLoss p (patchedMatmul settings step.backends frames backendChoice) step.idx
    step.targets

def run (p : Primitives R) (backendChoice : Option Int) : Dispatch R Unit := do
  let pass := step.forwardPass settings frames p backendChoice
  let _ ← pass
  step.backwardPass settings frames reached pass.calls

def calls (p : Primitives R) (backendChoice : Option Int) : List (ExtensionCall R) :=
  (step.run settings frames reached p backendChoice).calls

structure Trains (p : Primitives R) (backendChoice : Option Int) : Prop where
  loss : (step.forwardPass settings frames p backendChoice).result.isSome
  gradients : ∀ earlier call later,
    (step.forwardPass settings frames p backendChoice).calls = earlier ++ call :: later →
      (step.gradient later.length).shape = call.a.shape.take 1 ++ call.b.shape.drop 1

end TrainingStep

-- Steps of one training loop: the weights and the batch may have changed, the sizes have not.
structure SameStep (step other : TrainingStep R) : Prop where
  model : SameArchitecture step.model other.model
  idx : SameShape step.idx other.idx
  backends : SameBackends step.backends other.backends

end Code

section Layers

variable {R : Type} [Field R] {p : Primitives R} {choice : Int} {i o i' o' d h m d' h' m' : Nat}
  {matmul matmul' : TorchMatmul R}
  (multiplies : ∀ {a a' b b' : NdArray R}, SameShape a a' → SameShape b b' →
    SameDispatch choice (matmul a b) (matmul' a' b'))
  {x x' : NdArray R} (same : SameShape x x')

include multiplies same

theorem linear_alike {self : DSPLinear R i o} {other : DSPLinear R i' o'}
    (layer : SameLinear self other) :
    SameDispatch choice (self.run matmul x) (other.run matmul' x') := by
  obtain ⟨rfl, rfl, biased⟩ := layer
  unfold DSPLinear.run
  have weights : SameShape (matrixTensor o i self.weight).transposeLast
      (matrixTensor o i other.weight).transposeLast := rfl
  apply (multiplies same weights).bind
  intro out out' shape
  cases bias : self.bias <;> cases bias' : other.bias
  case none.none => exact .pure shape
  case some.some => exact .lift (shape.combine _ _ rfl)
  all_goals simp [bias, bias'] at biased

variable {self : TransformerBlock R d h m} {other : TransformerBlock R d' h' m'}
  (block : SameBlock self other)

include block

theorem heads_alike {proj : DSPLinear R d d} {proj' : DSPLinear R d' d'}
    (layer : SameLinear proj proj') (B T : Nat) :
    SameDispatch choice (self.runHeads matmul proj x B T)
      (other.runHeads matmul' proj' x' B T) := by
  have dims : self.headDim = other.headDim := by
    unfold TransformerBlock.headDim
    rw [layer.inFeatures, block.heads]
  unfold TransformerBlock.runHeads
  rw [dims, block.heads]
  apply (linear_alike multiplies same layer).bind
  intro y y' shape
  apply (Alike.lift (shape.reshape _)).bind
  intro view view' shape
  exact .pure (shape.transpose 1)

theorem attention_alike (B T C : Nat) :
    SameDispatch choice (self.runAttention p matmul x B T C)
      (other.runAttention p matmul' x' B T C) := by
  unfold TransformerBlock.runAttention
  apply (heads_alike multiplies same block block.qProj B T).bind
  intro q q' shapeQ
  apply (heads_alike multiplies same block block.kProj B T).bind
  intro k k' shapeK
  apply (heads_alike multiplies same block block.vProj B T).bind
  intro v v' shapeV
  apply (multiplies shapeQ shapeK.transposeLast).bind
  intro scores scores' shapeS
  have scaled := shapeS.map (· * p.rsqrt self.headDim) (· * p.rsqrt other.headDim)
  have mask : SameShape (causalMask T) (causalMask T) := rfl
  apply (Alike.lift (scaled.update _ _ mask)).bind
  intro attWeights attWeights' shapeW
  have probs : SameShape (softmaxLast p attWeights) (softmaxLast p attWeights') := shapeW
  apply (multiplies probs shapeV).bind
  intro attOut attOut' shapeO
  exact .lift ((shapeO.transpose 1).reshape _)

theorem block_alike : SameDispatch choice (self.run p matmul x) (other.run p matmul' x') := by
  have shape : x.shape = x'.shape := same
  unfold TransformerBlock.run
  rw [shape]
  split
  · apply (attention_alike multiplies same block _ _ _).bind
    intro attOut attOut' shapeA
    apply (linear_alike multiplies shapeA block.outProj).bind
    intro projected projected' shapeP
    apply (Alike.lift (same.combine _ _ shapeP)).bind
    intro sum sum' shapeX
    apply (linear_alike multiplies shapeX block.mlpL1).bind
    intro hidden hidden' shapeH
    apply (linear_alike multiplies (shapeH.map p.gelu p.gelu) block.mlpL2).bind
    intro mlpOut mlpOut' shapeM
    exact .lift (shapeX.combine _ _ shapeM)
  · exact .raised

omit block in
theorem layers_alike {layers : List (TransformerBlock R d h m)}
    {others : List (TransformerBlock R d' h' m')} (blocks : List.Forall₂ SameBlock layers others) :
    SameDispatch choice (layers.foldlM (fun x layer => TransformerBlock.run p matmul layer x) x)
      (others.foldlM (fun x layer => TransformerBlock.run p matmul' layer x) x') := by
  have turn : ∀ (x x' : NdArray R) (layer : TransformerBlock R d h m)
      (other : TransformerBlock R d' h' m'), SameShape x x' → SameBlock layer other →
        SameDispatch choice (layer.run p matmul x) (other.run p matmul' x') :=
    fun _ _ _ _ shape block => block_alike multiplies shape block
  exact Alike.foldlM turn blocks same

end Layers

section Pass

variable {R : Type} [Field R] {p : Primitives R} {choice : Int} {matmul matmul' : TorchMatmul R}
  {model other : TinyTransformer R} {idx idx' : NdArray Nat}

omit [Field R] in
theorem embed_shape {entries features : Nat} {weight : Nat → Nat → R} {x : NdArray R}
    (embedded : embed entries features weight idx = some x) :
    x.shape = idx.shape ++ [features] := by
  unfold embed at embedded
  split at embedded
  · cases embedded
    rfl
  · cases embedded

theorem embedding_same (architecture : SameArchitecture model other) (same : SameShape idx idx')
    {T : Nat} {x x' : NdArray R} (embedded : model.runEmbedding idx T = some x)
    (embedded' : other.runEmbedding idx' T = some x') : SameShape x x' := by
  obtain ⟨token, foundT, rest⟩ := Option.bind_eq_some_iff.mp embedded
  obtain ⟨token', foundT', rest'⟩ := Option.bind_eq_some_iff.mp embedded'
  obtain ⟨position, foundP, sum⟩ := Option.bind_eq_some_iff.mp rest
  obtain ⟨position', foundP', sum'⟩ := Option.bind_eq_some_iff.mp rest'
  have shape : idx.shape = idx'.shape := same
  have tokens : SameShape token token' := by
    unfold SameShape
    rw [embed_shape foundT, embed_shape foundT', shape, architecture.dModel]
  have positions : SameShape position position' := by
    unfold SameShape
    rw [embed_shape foundP, embed_shape foundP', architecture.dModel]
  have added := tokens.combine (· + ·) (· + ·) positions
  rw [sum, sum'] at added
  cases added with
  | some holds => exact holds

theorem run_alike
    (multiplies : ∀ {a a' b b' : NdArray R}, SameShape a a' → SameShape b b' →
      SameDispatch choice (matmul a b) (matmul' a' b'))
    (architecture : SameArchitecture model other) (same : SameShape idx idx')
    (returns : (model.run p matmul idx).result.isSome)
    (returns' : (other.run p matmul' idx').result.isSome) :
    SameDispatch choice (model.run p matmul idx) (other.run p matmul' idx') := by
  have shape : idx.shape = idx'.shape := same
  unfold TinyTransformer.run at *
  rw [shape] at returns ⊢
  split
  case h_1 B T sizes =>
    rw [sizes] at returns returns'
    have found : (model.runEmbedding idx T).isSome := isSome_of_bind returns
    have found' : (other.runEmbedding idx' T).isSome := isSome_of_bind returns'
    obtain ⟨x, embedded⟩ := Option.isSome_iff_exists.mp found
    obtain ⟨x', embedded'⟩ := Option.isSome_iff_exists.mp found'
    have start : SameShape x x' := embedding_same architecture same embedded embedded'
    have first : SameDispatch choice (.lift (model.runEmbedding idx T))
        (.lift (other.runEmbedding idx' T)) :=
      .lift (by rw [embedded, embedded']; exact .some start)
    apply first.bind
    intro x x' start
    apply (layers_alike multiplies start architecture.layers).bind
    intro last last' shape
    have normal : SameShape (model.lnFinal.run p last) (other.lnFinal.run p last') := shape
    exact linear_alike multiplies normal architecture.lmHead
  case h_2 => exact .raised

theorem calls_runLoss (targets : NdArray Nat) :
    (model.runLoss p matmul idx targets).calls = (model.run p matmul idx).calls := by
  apply calls_bind
  intro logits
  split
  · cases logits.reshape _ with
    | none => rfl
    | some flat =>
        cases targets.reshape _ with
        | none => rfl
        | some flatTargets => rfl
  · rfl

end Pass

section Step

variable {R : Type} [Field R] {settings : Settings} {frames : Nat} {p : Primitives R}
  {backendChoice : Option Int} {step other : TrainingStep R}

theorem patchedMatmul_alike {backends others : Backends R} (runs : SameBackends backends others)
    {a a' b b' : NdArray R} (sameA : SameShape a a') (sameB : SameShape b b') :
    SameDispatch (chosen settings backendChoice)
      (patchedMatmul settings backends frames backendChoice a b)
      (patchedMatmul settings others frames backendChoice a' b') := by
  have tensorA : SameTensor (cpuTensor a) (cpuTensor a') := ⟨sameA, rfl, rfl⟩
  have tensorB : SameTensor (cpuTensor b) (cpuTensor b') := ⟨sameB, rfl, rfl⟩
  exact matmulPatch_alike runs frames tensorA tensorB .none backendChoice

theorem forwardPass_calls (same : SameStep step other)
    (trains : step.Trains settings frames p backendChoice)
    (trains' : other.Trains settings frames p backendChoice) :
    List.Forall₂ (SameCall (chosen settings backendChoice))
      (step.forwardPass settings frames p backendChoice).calls
      (other.forwardPass settings frames p backendChoice).calls := by
  have pass := run_alike (p := p) (patchedMatmul_alike same.backends) same.model same.idx
    (isSome_of_bind trains.loss) (isSome_of_bind trains'.loss)
  unfold TrainingStep.forwardPass
  rw [calls_runLoss, calls_runLoss]
  exact pass.calls

theorem backward_alike (runs : SameBackends step.backends other.backends) {choice : Int}
    {call call' : ExtensionCall R} (same : SameCall choice call call') {grad grad' : NdArray R}
    (gradients : SameShape grad grad') :
    Alike (SameCall choice) (fun _ _ => True)
      (backward settings step.backends frames
        ⟨cpuTensor call.a, cpuTensor call.b, call.backendChoice⟩ (cpuTensor grad))
      (backward settings other.backends frames
        ⟨cpuTensor call'.a, cpuTensor call'.b, call'.backendChoice⟩ (cpuTensor grad')) := by
  obtain ⟨_, sameA, sameB, rfl, chosen⟩ := same
  have output : SameTensor (cpuTensor grad) (cpuTensor grad') := ⟨gradients, rfl, rfl⟩
  have left : SameTensor (cpuTensor call.a).t (cpuTensor call'.a).t :=
    ⟨congrArg List.reverse sameA, rfl, rfl⟩
  have right : SameTensor (cpuTensor call.b).t (cpuTensor call'.b).t :=
    ⟨congrArg List.reverse sameB, rfl, rfl⟩
  unfold backward
  rw [chosen]
  apply (matmulPatch_alike runs frames output right .none (some call.backendChoice)).bind
  intro _ _ _
  apply (matmulPatch_alike runs frames left output .none (some call.backendChoice)).bind
  intro _ _ _
  exact .pure trivial

theorem backwardPass_alike (reached : Nat → Bool)
    (runs : SameBackends step.backends other.backends) {choice : Int}
    {calls calls' : List (ExtensionCall R)} (same : List.Forall₂ (SameCall choice) calls calls')
    (gradients : ∀ earlier call later, calls = earlier ++ call :: later →
      (step.gradient later.length).shape = call.a.shape.take 1 ++ call.b.shape.drop 1)
    (gradients' : ∀ earlier call later, calls' = earlier ++ call :: later →
      (other.gradient later.length).shape = call.a.shape.take 1 ++ call.b.shape.drop 1) :
    Alike (SameCall choice) (fun _ _ => True) (step.backwardPass settings frames reached calls)
      (other.backwardPass settings frames reached calls') := by
  induction same with
  | nil => exact .pure trivial
  | @cons call call' rest rest' first others ih =>
      have length := others.length_eq
      have own : SameShape (step.gradient rest.length) (other.gradient rest'.length) := by
        have shapeA : call.a.shape = call'.a.shape := first.a
        have shapeB : call.b.shape = call'.b.shape := first.b
        unfold SameShape
        rw [gradients [] call rest rfl, gradients' [] call' rest' rfl, shapeA, shapeB]
      apply (ih (fun earlier other later split => gradients (call :: earlier) other later
        (congrArg (call :: ·) split)) fun earlier other later split =>
          gradients' (call' :: earlier) other later (congrArg (call' :: ·) split)).bind
      intro _ _ _
      dsimp only
      rw [length] at own ⊢
      split
      · apply (backward_alike runs first own).bind
        intro _ _ _
        exact .pure trivial
      · exact .pure trivial

theorem step_alike (same : SameStep step other)
    (trains : step.Trains settings frames p backendChoice)
    (trains' : other.Trains settings frames p backendChoice) (reached : Nat → Bool) :
    Alike (SameCall (chosen settings backendChoice)) (fun _ _ => True)
      (step.run settings frames reached p backendChoice)
      (other.run settings frames reached p backendChoice) := by
  obtain ⟨value, loss⟩ := Option.isSome_iff_exists.mp trains.loss
  obtain ⟨value', loss'⟩ := Option.isSome_iff_exists.mp trains'.loss
  have calls := forwardPass_calls same trains trains'
  have pass : Alike (SameCall (chosen settings backendChoice)) (fun _ _ => True)
      (step.forwardPass settings frames p backendChoice)
      (other.forwardPass settings frames p backendChoice) :=
    ⟨calls, by rw [loss, loss']; exact .some trivial⟩
  apply pass.bind
  intro _ _ _
  exact backwardPass_alike reached same.backends calls trains.gradients trains'.gradients

end Step

end NpuMatmul.Training
