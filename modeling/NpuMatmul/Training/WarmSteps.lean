import NpuMatmul.Dispatch.RepeatedCalls
import NpuMatmul.Training.PatchedForward
import NpuMatmul.Training.TrainingSteps

set_option autoImplicit false

namespace NpuMatmul.Training

variable {R : Type} [Field R]

-- After one step of a training loop, whose first product finds, loads or switches to the backend,
-- the later steps compile nothing: the weights and the batches change, not the graphs asked for.
theorem later_steps_compile_nothing {settings : Settings} {frames : Nat} {p : Primitives R}
    {backendChoice : Option Int} {first : TrainingStep R} {later : List (TrainingStep R)}
    (same : ∀ other ∈ first :: later,
      SameStep first other ∧ other.Trains settings frames p backendChoice)
    (reached : Nat → Bool) {s mid last : State} {requests repeated : List Request}
    (served : Serves (first.calls settings frames reached p backendChoice) requests)
    (starts : StartsOn (chosen settings backendChoice) s requests)
    (servedLater : Serves (later.flatMap (·.calls settings frames reached p backendChoice))
      repeated)
    (warm : Runs.after step s requests = some mid)
    (ran : Runs.after step mid repeated = some last) :
    last.compileCount = mid.compileCount + Runs.total step State.temporaries mid repeated := by
  have trains := (same first List.mem_cons_self).2
  have calls : ∀ other ∈ first :: later, List.Forall₂ (SameCall (chosen settings backendChoice))
      (first.calls settings frames reached p backendChoice)
      (other.calls settings frames reached p backendChoice) := by
    intro other member
    exact (step_alike (same other member).1 trains (same other member).2 reached).calls
  exact repeated_calls_compile (TrainingStep.calls settings frames reached · p backendChoice) calls
    served starts servedLater warm ran

section Sample

open NdArray

def movedLinear (shift : ℚ) (inFeatures outFeatures : Nat) : DSPLinear ℚ inFeatures outFeatures where
  weight o i := o + i + shift
  bias := some fun _ => shift

def movedModel (shift : ℚ) : TinyTransformer ℚ :=
  { TinyTransformer.sampleModel with
    layers := [{
      qProj := movedLinear shift 2 2
      kProj := movedLinear shift 2 2
      vProj := movedLinear shift 2 2
      outProj := movedLinear shift 2 2
      mlpL1 := movedLinear shift 2 1
      mlpL2 := movedLinear shift 1 2
      divides := ⟨2, rfl⟩ }]
    lmHead := movedLinear shift 2 2 }

theorem movedLinear_same (shift other : ℚ) (inFeatures outFeatures : Nat) :
    SameLinear (movedLinear shift inFeatures outFeatures)
      (movedLinear other inFeatures outFeatures) := ⟨rfl, rfl, rfl⟩

theorem movedModel_same (shift other : ℚ) :
    SameArchitecture (movedModel shift) (movedModel other) where
  dModel := rfl
  layers := .cons ⟨rfl, movedLinear_same _ _ _ _, movedLinear_same _ _ _ _,
    movedLinear_same _ _ _ _, movedLinear_same _ _ _ _, movedLinear_same _ _ _ _,
    movedLinear_same _ _ _ _⟩ .nil
  lmHead := movedLinear_same shift other 2 2

def sampleStep (shift : ℚ) (rows targets : List (List Nat)) : TrainingStep ℚ where
  model := movedModel shift
  idx := matrixTensor 1 2 (TinyTransformer.tokens rows)
  targets := matrixTensor 1 2 (TinyTransformer.tokens targets)
  backends := TinyTransformer.productBackends
  gradient _ := zeros [4, 4]

theorem sampleStep_same (shift other : ℚ) (rows targets others otherTargets : List (List Nat)) :
    SameStep (sampleStep shift rows targets) (sampleStep other others otherTargets) where
  model := movedModel_same shift other
  idx := rfl
  backends := ⟨fun same => multiply_same same.a same.b, fun a b _ => multiply_same a.shape b.shape⟩

def trainingRequests (build : BuildOutcome) : List Request :=
  List.replicate 27 (.matmul 4 4 4 2 false (matmulWith build true))

theorem trains_of_square {trained : TrainingStep ℚ}
    (loss : (trained.forwardPass plainSettings 3 TinyTransformer.samplePrimitives
      (some 2)).result.isSome)
    (square : ∀ call ∈ (trained.forwardPass plainSettings 3 TinyTransformer.samplePrimitives
      (some 2)).calls, call.a.shape = [4, 4] ∧ call.b.shape = [4, 4])
    (gradients : ∀ i, (trained.gradient i).shape = [4, 4]) :
    trained.Trains plainSettings 3 TinyTransformer.samplePrimitives (some 2) := by
  refine ⟨loss, fun earlier call later split => ?_⟩
  obtain ⟨left, right⟩ := square call (by rw [split]; simp)
  rw [gradients, left, right]
  rfl

-- The engine is constructed with backend 1 and the first product of the first step switches it.
set_option maxRecDepth 4000 in
theorem later_steps_compile_nothing_sample :
    ∃ mid last, Runs.after step loadedEngine (trainingRequests .notFinalized) = some mid ∧
      Runs.after step mid (trainingRequests .finalized) = some last ∧
        last.compileCount = mid.compileCount := by
  have same : ∀ other ∈ [sampleStep 0 [[0, 1]] [[1, 1]], sampleStep 1 [[1, 1]] [[1, 0]]],
      SameStep (sampleStep 0 [[0, 1]] [[1, 1]]) other ∧
        other.Trains plainSettings 3 TinyTransformer.samplePrimitives (some 2) := by
    intro other member
    obtain rfl | rfl : other = _ ∨ other = _ := by simpa using member
    · exact ⟨sampleStep_same _ _ _ _ _ _, trains_of_square rfl (by decide +kernel) fun _ => rfl⟩
    · exact ⟨sampleStep_same _ _ _ _ _ _, trains_of_square rfl (by decide +kernel) fun _ => rfl⟩
  have starts : StartsOn (chosen plainSettings (some 2)) loadedEngine
      (trainingRequests .notFinalized) := by
    rintro request ⟨⟩
    rfl
  have served : Serves ((sampleStep 0 [[0, 1]] [[1, 1]]).calls plainSettings 3 (fun _ => true)
      TinyTransformer.samplePrimitives (some 2)) (trainingRequests .notFinalized) :=
    serves_of_map false (matmulWith .notFinalized true) (tiledWith .finalized true) rfl
  have servedLater : Serves ([sampleStep 1 [[1, 1]] [[1, 0]]].flatMap (·.calls plainSettings 3
      (fun _ => true) TinyTransformer.samplePrimitives (some 2))) (trainingRequests .finalized) :=
    serves_of_map false (matmulWith .finalized true) (tiledWith .finalized true) rfl
  have warm : Runs.after step loadedEngine (trainingRequests .notFinalized) = some _ := rfl
  refine ⟨_, _, warm, rfl, ?_⟩
  exact later_steps_compile_nothing same (fun _ => true) served starts servedLater warm rfl

end Sample

end NpuMatmul.Training
