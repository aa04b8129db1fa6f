import NpuMatmul.Dispatch.LinearPatch
import NpuMatmul.Training.NextToken
import NpuMatmul.Training.TensorForward

set_option autoImplicit false

namespace NpuMatmul.Training

open NdArray RowMajor

section Matmul

variable {R : Type} [Field R] {lead : List Nat} {m k n : Nat}

structure IsSliceProduct (lead : List Nat) (m k n : Nat) (a b c : NdArray R) : Prop where
  shape : c.shape = lead ++ [m, n]
  entry : ∀ index i j, Inside lead index → i < m → j < n →
    c.entry (index ++ [i, j]) =
      ∑ x ∈ Finset.range k, a.entry (index ++ [i, x]) * b.entry (index ++ [x, j])

structure ExactMatmul (matmul : TorchMatmul R) : Prop where
  rows : ∀ {a b : NdArray R} {lead : List Nat} {k n : Nat}, a.shape = lead ++ [k] →
    b.shape = [k, n] → PositiveDims a.shape → 0 < n →
      (matmul a b).Returns (IsRowProduct lead k n a b)
  slices : ∀ {a b : NdArray R} {lead : List Nat} {m k n : Nat}, lead ≠ [] →
    a.shape = lead ++ [m, k] → b.shape = lead ++ [k, n] → PositiveDims a.shape → 0 < n →
      (matmul a b).Returns (IsSliceProduct lead m k n a b)

theorem sliceProduct_of {a b c : NdArray R} (left : a.shape = lead ++ [m, k])
    (right : b.shape = lead ++ [k, n]) (product : IsProduct a b c k lead) :
    IsSliceProduct lead m k n a b c := by
  obtain ⟨shape, entry⟩ := product
  rw [left, right, rowDims_append, columnDims_append] at shape entry
  refine ⟨by simpa using shape, fun index i j inside below within => ?_⟩
  have own := entry index [i] [j] inside (.cons below .nil) (.cons within .nil)
  rw [leading_append, leading_append, project_inside inside] at own
  simpa using own

theorem patchedMatmul_exact {settings : Settings} {backends : Backends R}
    (exact : ExactBackends backends) (nonzero : settings.NonzeroSplits) (frames : Nat)
    (backendChoice : Option Int) :
    ExactMatmul (patchedMatmul settings backends (frames + 3) backendChoice) := by
  constructor
  · intro a b lead k n left right positive columns
    have cpuA : (cpuTensor a).CpuFloat32 := ⟨rfl, rfl⟩
    have cpuB : (cpuTensor b).CpuFloat32 := ⟨rfl, rfl⟩
    exact matmulPatch_rowProduct exact nonzero cpuA cpuB left right positive columns frames
      backendChoice
  · intro a b lead m k n several left right positive columns
    have cpuA : (cpuTensor a).CpuFloat32 := ⟨rfl, rfl⟩
    have cpuB : (cpuTensor b).CpuFloat32 := ⟨rfl, rfl⟩
    have positiveA : PositiveDims (lead ++ [m, k]) := left ▸ positive
    have positiveB : PositiveDims (lead ++ [k, n]) := by
      have inner : 0 < k := positiveA k (by simp)
      refine List.forall_mem_append.mpr ⟨positiveA.append.1, ?_⟩
      simp [inner, columns]
    have product := patchSlices_product exact nonzero cpuA cpuB frames backendChoice several left
      right (broadcastShapes_self lead) positiveA positiveB
    exact product.mono fun c holds => sliceProduct_of left right holds

end Matmul

section Layers

variable {R : Type} [Field R] {B T C : Nat} {a : NdArray R} {x y : Activations R}

structure IsActivations (B T C : Nat) (x : Activations R) (a : NdArray R) : Prop where
  shape : a.shape = [B, T, C]
  entry : ∀ b < B, ∀ t < T, ∀ c < C, a.entry [b, t, c] = x b t c

theorem inside_three {b t c : Nat} (drawn : b < B) (early : t < T) (feature : c < C) :
    Inside [B, T, C] [b, t, c] := .cons drawn (.cons early (.cons feature .nil))

theorem inside_two {b t : Nat} (drawn : b < B) (early : t < T) : Inside [B, T] [b, t] :=
  .cons drawn (.cons early .nil)

omit [Field R] in
theorem IsActivations.congr (holds : IsActivations B T C x a)
    (same : ∀ b < B, ∀ t < T, ∀ c < C, x b t c = y b t c) : IsActivations B T C y a := by
  refine ⟨holds.shape, fun b drawn t early c feature => ?_⟩
  rw [holds.entry b drawn t early c feature, same b drawn t early c feature]

theorem IsActivations.add {d : NdArray R} (left : IsActivations B T C x a)
    (right : IsActivations B T C y d) :
    ∃ c, a.combine (· + ·) d = some c ∧
      IsActivations B T C (fun b t c => x b t c + y b t c) c := by
  obtain ⟨c, combined, shape, entry⟩ := combine_same (· + ·) (left.shape.trans right.shape.symm)
  refine ⟨c, combined, shape.trans right.shape, fun b drawn t early i counted => ?_⟩
  rw [entry _ (right.shape ▸ inside_three drawn early counted), left.entry b drawn t early i counted,
    right.entry b drawn t early i counted]

omit [Field R] in
theorem IsActivations.map (f : R → R) (holds : IsActivations B T C x a) :
    IsActivations B T C (fun b t c => f (x b t c)) (a.map f) :=
  ⟨holds.shape, fun b drawn t early c feature => congrArg f (holds.entry b drawn t early c feature)⟩

section Heads

variable {dModel nHeads dMlp : Nat} (self : TransformerBlock R dModel nHeads dMlp)

omit [Field R] in
theorem TransformerBlock.features : nHeads * self.headDim = dModel :=
  Nat.mul_div_cancel' self.divides

omit [Field R] in
theorem TransformerBlock.headDim_pos (model : 0 < dModel) : 0 < nHeads ∧ 0 < self.headDim := by
  rw [← self.features] at model
  exact ⟨Nat.pos_of_mul_pos_right model, Nat.pos_of_mul_pos_left model⟩

end Heads

variable {matmul : TorchMatmul R} (exact : ExactMatmul matmul) (batch : 0 < B) (long : 0 < T)

include exact batch long

theorem DSPLinear.run_correct {inFeatures outFeatures : Nat} (inputs : 0 < inFeatures)
    (outputs : 0 < outFeatures) (self : DSPLinear R inFeatures outFeatures)
    (holds : IsActivations B T inFeatures x a) :
    (self.run matmul a).Returns (IsActivations B T outFeatures (self.forward x)) := by
  have positive : PositiveDims a.shape := by
    rw [holds.shape]
    simp [PositiveDims, batch, long, inputs]
  have left : a.shape = [B, T] ++ [inFeatures] := holds.shape
  apply (exact.rows (b := (matrixTensor outFeatures inFeatures self.weight).transposeLast) left rfl
    positive outputs).bind
  rintro out ⟨shape, entry⟩
  have product : ∀ b < B, ∀ t < T, ∀ o < outFeatures, out.entry [b, t, o] =
      ∑ i ∈ Finset.range inFeatures, x b t i * self.weight o i := by
    intro b drawn t early o output
    refine (entry [b, t] o (inside_two drawn early) output).trans
      (Finset.sum_congr rfl fun i counted => ?_)
    have input : a.entry [b, t, i] = x b t i :=
      holds.entry b drawn t early i (Finset.mem_range.mp counted)
    exact congrArg (· * self.weight o i) input
  unfold DSPLinear.forward
  cases self.bias with
  | none => exact .pure ⟨shape, product⟩
  | some bias =>
    obtain ⟨c, combined, shapeC, entryC⟩ :=
      combine_suffix (b := vectorTensor outFeatures bias) (· + ·) shape rfl
    refine .lift ⟨c, combined, shapeC, fun b drawn t early o output => ?_⟩
    have own := entryC [b, t] [o] (inside_two drawn early) (.cons output .nil)
    exact own.trans (congrArg (· + bias o) (product b drawn t early o output))

namespace TransformerBlock

variable {dModel nHeads dMlp : Nat} {p : Primitives R} (self : TransformerBlock R dModel nHeads dMlp)

structure IsHeads (B H T D : Nat) (y : Nat → Nat → Nat → Nat → R) (a : NdArray R) : Prop where
  shape : a.shape = [B, H, T, D]
  entry : ∀ b < B, ∀ h < H, ∀ t < T, ∀ d < D, a.entry [b, h, t, d] = y b h t d

theorem runHeads_correct (model : 0 < dModel) (proj : DSPLinear R dModel dModel)
    (holds : IsActivations B T dModel x a) :
    (self.runHeads matmul proj a B T).Returns
      (IsHeads B nHeads T self.headDim (self.heads (proj.forward x))) := by
  apply (proj.run_correct exact batch long model model holds).bind
  rintro y ⟨shape, entry⟩
  have whole : y.shape = [B, T] ++ [nHeads * self.headDim] := by rw [shape, self.features]; rfl
  obtain ⟨c, reshaped, shapeC, entryC⟩ := reshape_split whole
  have view : y.reshape [B, T, nHeads, self.headDim] = some c := reshaped
  rw [view, Traced.lift_some, Traced.pure_bind]
  refine .pure ⟨?_, fun b drawn h known t early d dim => ?_⟩
  · rw [NdArray.transpose, shapeC]
    rfl
  · have below : h * self.headDim + d < dModel :=
      (Loop.rowMajor_lt known dim).trans_eq self.features
    have moved : (c.transpose 1).entry [b, h, t, d] = c.entry ([b, t] ++ [h, d]) := rfl
    rw [moved, entryC [b, t] h d (inside_two drawn early) known dim]
    exact entry b drawn t early _ below

section Attention

variable {q k v : NdArray R}

theorem scores_correct (model : 0 < dModel)
    (holdsQ : IsHeads B nHeads T self.headDim (self.heads (self.qProj.forward x)) q)
    (holdsK : IsHeads B nHeads T self.headDim (self.heads (self.kProj.forward x)) k) :
    (matmul q k.transposeLast).Returns (IsHeads B nHeads T T fun b h t s =>
      ∑ d ∈ Finset.range self.headDim, self.heads (self.qProj.forward x) b h t d *
        self.heads (self.kProj.forward x) b h s d) := by
  obtain ⟨heads, dims⟩ := self.headDim_pos model
  have positive : PositiveDims q.shape := by
    rw [holdsQ.shape]
    simp [PositiveDims, batch, long, heads, dims]
  have left : q.shape = [B, nHeads] ++ [T, self.headDim] := holdsQ.shape
  have right : k.transposeLast.shape = [B, nHeads] ++ [self.headDim, T] := by
    rw [transposeLast, NdArray.transpose, holdsK.shape]
    rfl
  apply (exact.slices (by simp) left right positive long).mono
  rintro c ⟨shape, entry⟩
  refine ⟨shape, fun b drawn h known t early s earlier => ?_⟩
  refine (entry [b, h] t s (inside_two drawn known) early earlier).trans
    (Finset.sum_congr rfl fun d dim => ?_)
  have below := Finset.mem_range.mp dim
  have query : q.entry ([b, h] ++ [t, d]) = _ := holdsQ.entry b drawn h known t early d below
  have swapped : k.transposeLast.entry ([b, h] ++ [d, s]) = k.entry [b, h, s, d] := by
    rw [transposeLast, NdArray.transpose, holdsK.shape]
    rfl
  rw [query, swapped, holdsK.entry b drawn h known s earlier d below]

omit exact batch long in
theorem attProbs_correct {scores : NdArray R}
    (holds : IsHeads B nHeads T T (fun b h t s => ∑ d ∈ Finset.range self.headDim,
      self.heads (self.qProj.forward x) b h t d * self.heads (self.kProj.forward x) b h s d)
      scores) :
    ∃ masked, maskedFill (scores.map (· * p.rsqrt self.headDim)) (causalMask T) = some masked ∧
      IsHeads B nHeads T T (self.attProbs p T x) (softmaxLast p masked) := by
  have expands : Expands (causalMask T).shape (scores.map (· * p.rsqrt self.headDim)).shape := by
    change Expands [T, T] scores.shape
    rw [holds.shape]
    exact expands_append [B, nHeads] [T, T]
  obtain ⟨masked, filled, shape, entry⟩ := update_entry
    (fun (score : R) masked => if masked then none else some score) expands
  have shapeM : masked.shape = [B, nHeads, T, T] := shape.trans holds.shape
  have weights : ∀ b < B, ∀ h < nHeads, ∀ t < T, ∀ s < T,
      masked.entry [b, h, t, s] = self.attWeights p x b h t s := by
    intro b drawn h known t early s earlier
    have last : project (causalMask T).shape [b, h, t, s] = [t, s] := by
      change project [T, T] ([b, h] ++ [t, s]) = [t, s]
      exact project_suffix (inside_two early earlier)
    have score : (scores.map (· * p.rsqrt self.headDim)).entry [b, h, t, s] = _ :=
      congrArg (· * p.rsqrt self.headDim) (holds.entry b drawn h known t early s earlier)
    rw [entry, last, score]
    simp [causalMask, matrixTensor, attWeights]
  refine ⟨masked, filled, shapeM, fun b drawn h known t early s earlier => ?_⟩
  have total : masked.shape.getLastD 0 = T := by
    rw [shapeM]
    rfl
  simp only [softmaxLast, attProbs, total, weights b drawn h known t early s earlier]
  congr 1
  refine Finset.sum_congr rfl fun s' earlier' => ?_
  exact congrArg (expWeight p) (weights b drawn h known t early s' (Finset.mem_range.mp earlier'))

theorem runAttention_correct (model : 0 < dModel) (holds : IsActivations B T dModel x a) :
    (self.runAttention p matmul a B T dModel).Returns (IsActivations B T dModel fun b t c =>
      self.attOut p T x b (c / self.headDim) t (c % self.headDim)) := by
  obtain ⟨heads, dims⟩ := self.headDim_pos model
  apply (self.runHeads_correct exact batch long model self.qProj holds).bind
  intro q holdsQ
  apply (self.runHeads_correct exact batch long model self.kProj holds).bind
  intro k holdsK
  apply (self.runHeads_correct exact batch long model self.vProj holds).bind
  intro v holdsV
  apply (self.scores_correct exact batch long model holdsQ holdsK).bind
  intro scores holdsS
  obtain ⟨masked, filled, holdsP⟩ := self.attProbs_correct (p := p) holdsS
  dsimp only
  rw [filled, Traced.lift_some, Traced.pure_bind]
  have positive : PositiveDims (softmaxLast p masked).shape := by
    rw [holdsP.shape]
    simp [PositiveDims, batch, long, heads]
  have left : (softmaxLast p masked).shape = [B, nHeads] ++ [T, T] := holdsP.shape
  have right : v.shape = [B, nHeads] ++ [T, self.headDim] := holdsV.shape
  apply (exact.slices (by simp) left right positive dims).bind
  rintro out ⟨shape, entry⟩
  have mixed : ∀ b < B, ∀ h < nHeads, ∀ t < T, ∀ d < self.headDim,
      out.entry [b, h, t, d] = self.attOut p T x b h t d := by
    intro b drawn h known t early d dim
    refine (entry [b, h] t d (inside_two drawn known) early dim).trans
      (Finset.sum_congr rfl fun s earlier => ?_)
    have below := Finset.mem_range.mp earlier
    have weight : (softmaxLast p masked).entry ([b, h] ++ [t, s]) = _ :=
      holdsP.entry b drawn h known t early s below
    have value : v.entry ([b, h] ++ [s, d]) = _ := holdsV.entry b drawn h known s below d dim
    rw [weight, value]
  have rows : (out.transpose 1).shape = [B, T] ++ [nHeads, self.headDim] := by
    rw [NdArray.transpose, shape]
    rfl
  obtain ⟨c, reshaped, shapeC, entryC⟩ := reshape_merge rows
  rw [self.features] at reshaped shapeC entryC
  refine .lift ⟨c, reshaped, shapeC, fun b drawn t early i counted => ?_⟩
  have head : i / self.headDim < nHeads := by
    rw [← self.features] at counted
    exact Nat.div_lt_of_lt_mul (counted.trans_eq (Nat.mul_comm _ _))
  have moved : c.entry [b, t, i] = out.entry [b, i / self.headDim, t, i % self.headDim] :=
    entryC [b, t] i (inside_two drawn early) counted
  rw [moved, mixed b drawn _ head t early _ (Nat.mod_lt _ dims)]

end Attention

theorem run_correct (model : 0 < dModel) (mlp : 0 < dMlp) (holds : IsActivations B T dModel x a) :
    (self.run p matmul a).Returns (IsActivations B T dModel (self.forward p T x)) := by
  simp only [run, holds.shape]
  apply (self.runAttention_correct (p := p) exact batch long model holds).bind
  intro attOut holdsA
  apply (self.outProj.run_correct exact batch long model model holdsA).bind
  intro projected holdsP
  obtain ⟨sum, added, holdsX⟩ := holds.add holdsP
  rw [added, Traced.lift_some, Traced.pure_bind]
  apply (self.mlpL1.run_correct exact batch long model mlp holdsX).bind
  intro hidden holdsH
  apply (self.mlpL2.run_correct exact batch long mlp model (holdsH.map p.gelu)).bind
  intro mlpOut holdsM
  exact .lift (holdsX.add holdsM)

end TransformerBlock

theorem layers_correct {dModel nHeads dMlp : Nat} {p : Primitives R} (model : 0 < dModel)
    (mlp : 0 < dMlp) (layers : List (TransformerBlock R dModel nHeads dMlp))
    (holds : IsActivations B T dModel x a) :
    (layers.foldlM (fun a layer => TransformerBlock.run p matmul layer a) a).Returns
      (IsActivations B T dModel (layers.foldl (fun x layer => layer.forward p T x) x)) := by
  induction layers generalizing x a with
  | nil => exact .pure holds
  | cons layer layers ih =>
    apply (layer.run_correct exact batch long model mlp holds).bind
    intro next holdsN
    exact ih holdsN

omit exact batch long

theorem LayerNorm.forward_congr {features : Nat} {p : Primitives R} (self : LayerNorm R features)
    {row other : Nat → R} (same : ∀ c < features, row c = other c) {c : Nat}
    (feature : c < features) :
    self.forward p row c = self.forward p other c := by
  have mean : ∑ i ∈ Finset.range features, row i = ∑ i ∈ Finset.range features, other i :=
    Finset.sum_congr rfl fun i counted => same i (Finset.mem_range.mp counted)
  have variance : ∀ m : R, ∑ i ∈ Finset.range features, (row i - m) * (row i - m) =
      ∑ i ∈ Finset.range features, (other i - m) * (other i - m) := by
    intro m
    exact Finset.sum_congr rfl fun i counted => by rw [same i (Finset.mem_range.mp counted)]
  simp only [LayerNorm.forward, mean, variance, same c feature]

theorem LayerNorm.run_correct {features : Nat} {p : Primitives R} (self : LayerNorm R features)
    (holds : IsActivations B T features x a) :
    IsActivations B T features (fun b t => self.forward p (x b t)) (self.run p a) := by
  refine ⟨holds.shape, fun b drawn t early c feature => ?_⟩
  exact self.forward_congr (fun i counted => holds.entry b drawn t early i counted) feature

theorem crossEntropy_congr {p : Primitives R} {classes target : Nat} {row other : Nat → R}
    (same : ∀ c < classes, row c = other c) (feature : target < classes) :
    TinyTransformer.crossEntropy p classes row target =
      TinyTransformer.crossEntropy p classes other target := by
  have total : ∑ c ∈ Finset.range classes, p.exp (row c) =
      ∑ c ∈ Finset.range classes, p.exp (other c) :=
    Finset.sum_congr rfl fun c feature => by rw [same c (Finset.mem_range.mp feature)]
  rw [TinyTransformer.crossEntropy, total, same target feature]
  rfl

end Layers

namespace TinyTransformer

variable {R : Type} [Field R] {p : Primitives R} {self : TinyTransformer R}
  {rows targets : List (List Nat)} {T : Nat}

omit [Field R] in
theorem tokens_lt {b t : Nat} (accepted : self.accepts rows T) (drawn : b < rows.length)
    (early : t < T) : tokens rows b t < self.vocabSize := by
  obtain ⟨length, small⟩ := accepted.2 rows[b] (List.getElem_mem drawn)
  have inside : t < rows[b].length := length ▸ early
  have found : tokens rows b t = rows[b][t] := by
    simp [tokens, List.getElem?_eq_getElem drawn, List.getElem?_eq_getElem inside]
  rw [found]
  exact small _ (List.getElem_mem inside)

omit [Field R] in
theorem stackTokens_accepted (accepted : self.accepts rows T) (present : rows ≠ []) :
    stackTokens rows = some (matrixTensor rows.length T (tokens rows)) := by
  cases rows with
  | nil => exact absurd rfl present
  | cons row rows =>
    have length : ∀ other ∈ row :: rows, other.length = T := fun other member =>
      (accepted.2 other member).1
    have first : row.length = T := length row List.mem_cons_self
    have same : ∀ other ∈ rows, other.length = row.length := by
      intro other member
      rw [first, length other (List.mem_cons_of_mem row member)]
    rw [stackTokens, if_pos same, first]
    rfl

omit [Field R] in
theorem embed_rows {entries B : Nat} (features : Nat) (weight : Nat → Nat → R) (idx : NdArray Nat)
    (shape : idx.shape = [B, T]) (small : ∀ b < B, ∀ t < T, idx.entry [b, t] < entries) :
    ∃ c, embed entries features weight idx = some c ∧ c.shape = [B, T, features] ∧
      ∀ b t c', c.entry [b, t, c'] = weight (idx.entry [b, t]) c' := by
  have inside : ∀ position < idx.shape.prod, idx.entry (unravel idx.shape position) < entries := by
    rw [shape]
    intro position below
    have bound : position < B * T := by simpa using below
    rw [unravel_pair]
    have positive : 0 < T := Nat.pos_of_mul_pos_left (Nat.zero_lt_of_lt bound)
    exact small _ (Nat.div_lt_of_lt_mul (bound.trans_eq (Nat.mul_comm B T))) _
      (Nat.mod_lt _ positive)
  refine ⟨_, if_pos inside, by rw [shape]; rfl, fun b t c' => rfl⟩

theorem runEmbedding_correct (accepted : self.accepts rows T) :
    ∃ x, self.runEmbedding (matrixTensor rows.length T (tokens rows)) T = some x ∧
      IsActivations rows.length T self.dModel
        (fun b t c => self.tokenEmbedding (tokens rows b t) c + self.posEmbedding t c) x := by
  obtain ⟨token, found, shape, entry⟩ := embed_rows self.dModel self.tokenEmbedding
    (matrixTensor rows.length T (tokens rows)) rfl
      fun b drawn t early => tokens_lt accepted drawn early
  obtain ⟨position, placed, shapeP, entryP⟩ := embed_rows (B := 1) self.dModel
    self.posEmbedding ((vectorTensor T id).unsqueeze 0) rfl
      fun b _ t early => early.trans_le accepted.1
  have expands : Expands position.shape token.shape := by
    rw [shape, shapeP]
    simp [Expands]
  have common : broadcastShapes token.shape position.shape = some token.shape := by
    rw [broadcastShapes_comm, expands.common]
  obtain ⟨x, added, shapeX, entryX⟩ := combine_entry (· + ·) common
  have whole : self.runEmbedding (matrixTensor rows.length T (tokens rows)) T = some x := by
    simp [runEmbedding, found, placed, added]
  refine ⟨x, whole, shapeX.trans shape, fun b drawn t early c feature => ?_⟩
  have own : project token.shape [b, t, c] = [b, t, c] :=
    project_inside (shape ▸ inside_three drawn early feature)
  have shared : project position.shape [b, t, c] = [0, t, c] := by
    have last := project_inside (inside_two early feature)
    simp only [project, List.length_cons, List.length_nil, Nat.sub_self, List.drop_zero,
      List.zipWith_cons_cons, List.zipWith_nil_left, List.cons.injEq] at last
    simp [shapeP, project, last.1, last.2.1]
  rw [entryX, own, shared, entry, entryP]
  rfl

section Run

variable {matmul : TorchMatmul R} (exact : ExactMatmul matmul) (accepted : self.accepts rows T)
  (present : rows ≠ []) (long : 0 < T) (model : 0 < self.dModel) (mlp : 0 < self.dMlp)

include exact accepted present long model mlp

theorem run_correct :
    (self.run p matmul (matrixTensor rows.length T (tokens rows))).Returns
      (IsActivations rows.length T self.vocabSize (self.logits p T (tokens rows))) := by
  have batch : 0 < rows.length := List.length_pos_of_ne_nil present
  have vocab : 0 < self.vocabSize := Nat.zero_lt_of_lt (tokens_lt accepted batch long)
  obtain ⟨x, embedded, holds⟩ := runEmbedding_correct accepted
  have start : self.run p matmul (matrixTensor rows.length T (tokens rows)) =
      (self.layers.foldlM (fun x layer => TransformerBlock.run p matmul layer x) x) >>= fun x =>
        self.lmHead.run matmul (self.lnFinal.run p x) := by
    change (Traced.lift (self.runEmbedding _ T) >>= _) = _
    rw [embedded, Traced.lift_some, Traced.pure_bind]
  rw [start]
  apply (layers_correct exact batch long model mlp self.layers holds).bind
  intro last holdsL
  exact self.lmHead.run_correct exact batch long model vocab (self.lnFinal.run_correct holdsL)

omit exact present long model mlp in
theorem loss_defined {value : R} (defined : self.loss p rows targets T = some value) :
    0 < rows.length * T ∧ targets.length = rows.length ∧ self.accepts targets T ∧
      (∑ i ∈ Finset.range (rows.length * T), crossEntropy p self.vocabSize
        (self.logits p T (tokens rows) (i / T) (i % T)) (tokens targets (i / T) (i % T))) /
          ((rows.length * T : Nat) : R) = value := by
  unfold loss forward at defined
  rw [if_pos accepted] at defined
  simp only [Option.bind_eq_bind, Option.bind_some] at defined
  split at defined
  case isTrue checked => exact ⟨checked.1, checked.2.1, checked.2.2, Option.some.inj defined⟩
  case isFalse => cases defined

theorem runLoss_correct {value : R} (defined : self.loss p rows targets T = some value) :
    (self.runLoss p matmul (matrixTensor rows.length T (tokens rows))
      (matrixTensor targets.length T (tokens targets))).Returns (· = value) := by
  obtain ⟨positive, same, acceptedT, rfl⟩ := loss_defined accepted defined
  have prod : [rows.length, T].prod = rows.length * T := by simp
  apply (run_correct (p := p) exact accepted present long model mlp).bind
  rintro logits ⟨shape, entry⟩
  have leadL : logits.shape = [rows.length, T] ++ [self.vocabSize] := shape
  obtain ⟨flat, flattened, shapeF, entryF⟩ := reshape_leading leadL
  have leadT : (matrixTensor targets.length T (tokens targets)).shape =
      [rows.length, T] ++ [] := by
    rw [same]
    rfl
  obtain ⟨flatT, flattenedT, shapeT, entryT⟩ := reshape_leading leadT
  rw [prod] at flattened shapeF entryF flattenedT shapeT entryT
  have targetAt : ∀ i < rows.length * T,
      flatT.entry [i] = tokens targets (i / T) (i % T) := by
    intro i counted
    rw [entryT i [] counted .nil, unravel_pair]
    rfl
  have logitsAt : ∀ i < rows.length * T, ∀ c < self.vocabSize,
      flat.entry [i, c] = self.logits p T (tokens rows) (i / T) (i % T) c := by
    intro i counted c feature
    rw [entryF i [c] counted (.cons feature .nil), unravel_pair]
    exact entry _ (Nat.div_lt_of_lt_mul (counted.trans_eq (Nat.mul_comm _ _))) _ (Nat.mod_lt i long) c
      feature
  have small : ∀ i < rows.length * T, flatT.entry [i] < self.vocabSize := by
    intro i counted
    rw [targetAt i counted]
    have row : i / T < targets.length := by
      rw [same]
      exact Nat.div_lt_of_lt_mul (counted.trans_eq (Nat.mul_comm _ _))
    exact tokens_lt acceptedT row (Nat.mod_lt i long)
  simp only [shape, flattened, flattenedT, Traced.lift_some, Traced.pure_bind, meanCrossEntropy,
    shapeF]
  rw [if_pos ⟨shapeT, positive, small⟩, Traced.lift_some]
  refine .pure ?_
  congr 1
  refine Finset.sum_congr rfl fun i counted => ?_
  have below := Finset.mem_range.mp counted
  rw [targetAt i below]
  exact crossEntropy_congr (logitsAt i below) (targetAt i below ▸ small i below)

end Run

-- Whenever the model has a loss, the calls of torch that compute it get it through matmul_patch:
-- the heads of attention slice by slice, and the linear layers as one matrix of rows.
theorem patched_loss {settings : Settings} {backends : Backends R} (p : Primitives R)
    (self : TinyTransformer R) (exact : ExactBackends backends)
    (nonzero : settings.NonzeroSplits) (model : 0 < self.dModel) (mlp : 0 < self.dMlp)
    (rows targets : List (List Nat)) (T : Nat) {value : R}
    (defined : self.loss p rows targets T = some value) (frames : Nat)
    (backendChoice : Option Int) :
    ∃ idx targetIdx, stackTokens rows = some idx ∧ stackTokens targets = some targetIdx ∧
      (self.runLoss p (patchedMatmul settings backends (frames + 3) backendChoice) idx
        targetIdx).Returns (· = value) := by
  have accepted : self.accepts rows T := by
    by_contra refused
    simp [loss, forward, refused] at defined
  obtain ⟨positive, same, acceptedT, _⟩ := loss_defined accepted defined
  have present : rows ≠ [] := by
    rintro rfl
    simp at positive
  have presentT : targets ≠ [] := by
    rintro rfl
    simp [← same] at positive
  have long : 0 < T := Nat.pos_of_mul_pos_left positive
  refine ⟨_, _, stackTokens_accepted accepted present, stackTokens_accepted acceptedT presentT, ?_⟩
  exact runLoss_correct (patchedMatmul_exact exact nonzero frames backendChoice) accepted present long
    model mlp defined

section Sample

def productBackends : Backends ℚ :=
  { kernel := fun call => multiply call.a call.b
    matmulOriginal := fun a b _ => multiply a.toNdArray b.toNdArray }

theorem productBackends_exact : ExactBackends productBackends := by
  constructor
  · intro call m k n left right _ _ _ _
    apply multiply_product
    constructor <;> simp [left, right, innerLeft, innerRight, leading, lastTwo]
  · intro a b inner batch multiplies _ _
    exact multiply_product multiplies

theorem patched_loss_sample :
    ∃ idx targetIdx, stackTokens [[0, 1], [1, 1]] = some idx ∧
      stackTokens [[1, 1], [1, 0]] = some targetIdx ∧
      (sampleModel.runLoss samplePrimitives (patchedMatmul plainSettings productBackends 3 (some 2))
        idx targetIdx).Returns (· = 17743381000014319402219 / 412622908571577636) := by
  have defined : sampleModel.loss samplePrimitives [[0, 1], [1, 1]] [[1, 1], [1, 0]] 2 =
      some (17743381000014319402219 / 412622908571577636) := by
    decide +kernel
  exact patched_loss samplePrimitives sampleModel productBackends_exact plainSettings_nonzero
    Nat.two_pos Nat.one_pos _ _ 2 defined 0 (some 2)

end Sample

end TinyTransformer

end NpuMatmul.Training
