import Mathlib.Algebra.BigOperators.Intervals
import Mathlib.Algebra.BigOperators.Field
import Mathlib.Algebra.BigOperators.Fin
import Mathlib.Data.Rat.Defs
import NpuMatmul.Shared.Loop
import NpuMatmul.Training.Transformer

set_option autoImplicit false

namespace NpuMatmul.Training

section Tokens

variable {chars s : List Char} {c : Char} {ids : List Nat}

theorem mem_vocabulary {text : List Char} : c ∈ vocabulary text ↔ c ∈ text := by
  simp [vocabulary]

theorem decode_charToId (member : c ∈ chars) :
    ∃ i, charToId chars c = some i ∧ i < chars.length ∧ chars[i]? = some c := by
  have below : chars.idxOf c < chars.length := List.idxOf_lt_length_of_mem member
  refine ⟨chars.idxOf c, if_pos member, below, ?_⟩
  rw [List.getElem?_eq_getElem below, List.getElem_idxOf below]

theorem encode_correct (known : ∀ c ∈ s, c ∈ chars) :
    ∃ ids, encode chars s = some ids ∧ decode chars ids = some s ∧ ids.length = s.length ∧
      ∀ i ∈ ids, i < chars.length := by
  induction s with
  | nil => exact ⟨[], rfl, rfl, rfl, by simp⟩
  | cons c s ih =>
    have member : c ∈ chars := known c List.mem_cons_self
    obtain ⟨i, found, below, back⟩ := decode_charToId member
    obtain ⟨ids, encoded, decoded, length, small⟩ :=
      ih fun d later => known d (List.mem_cons_of_mem _ later)
    simp only [encode, decode] at encoded decoded
    refine ⟨i :: ids, ?_, ?_, by simp [length], ?_⟩
    · simp [encode, found, encoded]
    · simp [decode, back, decoded]
    · simp only [List.mem_cons, forall_eq_or_imp]
      exact ⟨below, small⟩

end Tokens

section Causality

variable {R : Type} [Field R]

def AgreeBelow (n b b' : Nat) (x y : Activations R) : Prop := ∀ t < n, x b t = y b' t

variable {n b b' T T' : Nat} {x y : Activations R}

theorem DSPLinear.forward_congr {inFeatures outFeatures : Nat}
    (self : DSPLinear R inFeatures outFeatures) {t : Nat} (same : x b t = y b' t) :
    self.forward x b t = self.forward y b' t := by
  unfold DSPLinear.forward
  simp only [same]

namespace TransformerBlock

variable {dModel nHeads dMlp : Nat} {p : Primitives R} {self : TransformerBlock R dModel nHeads dMlp}

variable (p self x b) in
theorem sum_visible {t : Nat} (early : t < T) (h : Nat) (value : Nat → R) :
    ∑ s ∈ Finset.range T, expWeight p (self.attWeights p x b h t s) * value s =
      ∑ s ∈ Finset.range (t + 1), expWeight p (self.attWeights p x b h t s) * value s := by
  have visible : Finset.range (t + 1) ⊆ Finset.range T := Finset.range_subset_range.mpr early
  refine (Finset.sum_subset visible ?_).symm
  intro s _ later
  have masked : t + 1 ≤ s := by simpa using later
  simp [attWeights, masked, expWeight]

theorem attOut_eq {t : Nat} (early : t < T) (h d : Nat) :
    self.attOut p T x b h t d =
      (∑ s ∈ Finset.range (t + 1), expWeight p (self.attWeights p x b h t s) *
        self.heads (self.vProj.forward x) b h s d) /
      ∑ s ∈ Finset.range (t + 1), expWeight p (self.attWeights p x b h t s) := by
  have total := self.sum_visible b x p early h fun _ => (1 : R)
  have weighted := self.sum_visible b x p early h fun s =>
    self.heads (self.vProj.forward x) b h s d
  simp only [mul_one] at total
  rw [← weighted, ← total, Finset.sum_div]
  refine Finset.sum_congr rfl fun s _ => ?_
  rw [attProbs, div_mul_eq_mul_div]

variable (self) in
theorem heads_congr {t : Nat} (linear : DSPLinear R dModel dModel) (same : x b t = y b' t)
    (head d : Nat) :
    self.heads (linear.forward x) b head t d = self.heads (linear.forward y) b' head t d := by
  simp only [heads, linear.forward_congr same]

theorem attWeights_congr (agree : AgreeBelow n b b' x y) {t s : Nat} (early : t < n)
    (visible : s ≤ t) (head : Nat) :
    self.attWeights p x b head t s = self.attWeights p y b' head t s := by
  have query := self.heads_congr self.qProj (agree t early) head
  have key := self.heads_congr self.kProj (agree s (by omega)) head
  simp only [attWeights, query, key]

theorem attOut_congr (agree : AgreeBelow n b b' x y) {t : Nat} (early : t < n) (inside : n ≤ T)
    (inside' : n ≤ T') (head d : Nat) :
    self.attOut p T x b head t d = self.attOut p T' y b' head t d := by
  have weights : ∀ s ∈ Finset.range (t + 1),
      self.attWeights p x b head t s = self.attWeights p y b' head t s := by
    intro s visible
    exact attWeights_congr agree early (by simpa [Nat.lt_succ_iff] using visible) head
  have values : ∀ s ∈ Finset.range (t + 1), self.heads (self.vProj.forward x) b head s d =
      self.heads (self.vProj.forward y) b' head s d := by
    intro s visible
    have visible : s < n := lt_of_lt_of_le (Finset.mem_range.mp visible) early
    exact self.heads_congr self.vProj (agree s visible) head d
  rw [attOut_eq (lt_of_lt_of_le early inside), attOut_eq (lt_of_lt_of_le early inside')]
  congr 1
  · exact Finset.sum_congr rfl fun s visible => by rw [weights s visible, values s visible]
  · exact Finset.sum_congr rfl fun s visible => by rw [weights s visible]

theorem forward_causal (agree : AgreeBelow n b b' x y) (inside : n ≤ T) (inside' : n ≤ T') :
    AgreeBelow n b b' (self.forward p T x) (self.forward p T' y) := by
  intro t early
  have input := agree t early
  have attention : ∀ head d, self.attOut p T x b head t d = self.attOut p T' y b' head t d :=
    attOut_congr agree early inside inside'
  funext c
  simp only [forward, DSPLinear.forward, input, attention]

end TransformerBlock

namespace TinyTransformer

variable (p : Primitives R) (self : TinyTransformer R)

theorem layers_causal (layers : List (TransformerBlock R self.dModel self.nHeads self.dMlp))
    (inside : n ≤ T) (inside' : n ≤ T') (agree : AgreeBelow n b b' x y) :
    AgreeBelow n b b' (layers.foldl (fun x layer => layer.forward p T x) x)
      (layers.foldl (fun x layer => layer.forward p T' x) y) := by
  induction layers generalizing x y with
  | nil => exact agree
  | cons layer layers ih => exact ih (layer.forward_causal agree inside inside')

theorem logits_causal {idx idx' : Nat → Nat → Nat} (same : ∀ t < n, idx b t = idx' b' t)
    (inside : n ≤ T) (inside' : n ≤ T') :
    AgreeBelow n b b' (self.logits p T idx) (self.logits p T' idx') := by
  have embedded : AgreeBelow n b b'
      (fun b t c => self.tokenEmbedding (idx b t) c + self.posEmbedding t c)
      (fun b t c => self.tokenEmbedding (idx' b t) c + self.posEmbedding t c) := by
    intro t early
    simp only [same t early]
  have agree := self.layers_causal p self.layers inside inside' embedded
  intro t early
  have normed := congrArg (self.lnFinal.forward p) (agree t early)
  funext o
  simp only [logits, DSPLinear.forward, normed]

-- The logits for the token after a window: the model on that window alone, at its last position.
def nextToken (window : List Nat) : Nat → R :=
  self.logits p window.length (tokens [window]) 0 (window.length - 1)

theorem logits_eq_nextToken {rows : List (List Nat)} {t : Nat} (below : b < rows.length)
    (early : t < T) (length : rows[b].length = T) :
    self.logits p T (tokens rows) b t = self.nextToken p (rows[b].take (t + 1)) := by
  have window : (rows[b].take (t + 1)).length = t + 1 := by
    rw [List.length_take]
    omega
  rw [nextToken, window]
  refine self.logits_causal p (n := t + 1) ?_ early le_rfl t (Nat.lt_succ_self t)
  intro s visible
  simp [tokens, List.getElem?_eq_getElem below, visible]

omit [Field R] in
theorem accepts_getBatch {data ix : List Nat} {blockSize : Nat} (fits : blockSize ≤ self.blockSize)
    (known : ∀ token ∈ data, token < self.vocabSize)
    (inside : ∀ i ∈ ix, i + blockSize < data.length) :
    self.accepts (getBatch data ix blockSize).1 blockSize ∧
      self.accepts (getBatch data ix blockSize).2 blockSize := by
  have slice : ∀ start, start + blockSize ≤ data.length →
      ((data.drop start).take blockSize).length = blockSize ∧
        ∀ token ∈ (data.drop start).take blockSize, token < self.vocabSize := by
    intro start bound
    constructor
    · rw [List.length_take, List.length_drop]
      omega
    · intro token member
      exact known token (List.mem_of_mem_drop (List.mem_of_mem_take member))
  refine ⟨⟨fits, ?_⟩, ⟨fits, ?_⟩⟩
  · intro row member
    obtain ⟨i, drawn, rfl⟩ := List.mem_map.mp member
    exact slice i (inside i drawn).le
  · intro row member
    obtain ⟨i, drawn, rfl⟩ := List.mem_map.mp member
    exact slice (i + 1) (by have := inside i drawn; omega)

end TinyTransformer

end Causality

section Loss

variable {R : Type} [Field R]

theorem sum_getElem (ix : List Nat) (f : Nat → R) :
    ∑ b : Fin ix.length, f ix[b] = (ix.map f).sum := by
  rw [← List.sum_ofFn]
  congr 1
  exact List.ofFn_getElem_eq_map ix f

theorem sum_flattened (rows T : Nat) (positive : 0 < T) (f : Nat → Nat → R) :
    ∑ i ∈ Finset.range (rows * T), f (i / T) (i % T) =
      ∑ b ∈ Finset.range rows, ∑ t ∈ Finset.range T, f b t := by
  rw [← Loop.sum_blocks]
  refine Finset.sum_congr rfl fun b _ => Finset.sum_congr rfl fun t early => ?_
  have early : t < T := Finset.mem_range.mp early
  have quotient : (b * T + t) / T = b := by
    rw [Nat.mul_comm, Nat.mul_add_div positive, Nat.div_eq_of_lt early, Nat.add_zero]
  have remainder : (b * T + t) % T = t := by
    rw [Nat.mul_comm, Nat.mul_add_mod, Nat.mod_eq_of_lt early]
  rw [quotient, remainder]

namespace TinyTransformer

variable (p : Primitives R) (self : TinyTransformer R)

def positionLoss (data : List Nat) (blockSize i : Nat) : R :=
  ∑ t ∈ Finset.range blockSize,
    crossEntropy p self.vocabSize (self.nextToken p ((data.drop i).take (t + 1)))
      (data.getD (i + t + 1) 0)

theorem batch_position {data ix : List Nat} {blockSize b : Nat} (drawn : b < ix.length)
    (inside : ∀ i ∈ ix, i + blockSize < data.length) :
    ∑ t ∈ Finset.range blockSize,
        crossEntropy p self.vocabSize
          (self.logits p blockSize (tokens (getBatch data ix blockSize).1) b t)
          (tokens (getBatch data ix blockSize).2 b t) =
      self.positionLoss p data blockSize ix[b] := by
  have bound := inside _ (List.getElem_mem drawn)
  have below : b < (getBatch data ix blockSize).1.length := by simpa [getBatch] using drawn
  have slice : (getBatch data ix blockSize).1[b] = (data.drop ix[b]).take blockSize := by
    simp [getBatch]
  have length : (getBatch data ix blockSize).1[b].length = blockSize := by
    rw [slice, List.length_take, List.length_drop]
    omega
  refine Finset.sum_congr rfl fun t early => ?_
  have early : t < blockSize := Finset.mem_range.mp early
  have window : (getBatch data ix blockSize).1[b].take (t + 1) = (data.drop ix[b]).take (t + 1) := by
    rw [slice, List.take_take, min_eq_left early]
  have target : tokens (getBatch data ix blockSize).2 b t = data.getD (ix[b] + t + 1) 0 := by
    simp [tokens, getBatch, drawn, early, Nat.add_right_comm]
  rw [logits_eq_nextToken p self below early length, window, target]

-- The loss of a batch of the text is the mean, over the drawn positions and the lengths up to the
-- block size, of the loss of the model run on that window alone against the token that follows it.
theorem loss_next_token (text : List Char) (ix : List Nat) (blockSize : Nat)
    (vocab : self.vocabSize = (vocabulary text).length) (fits : blockSize ≤ self.blockSize)
    (positive : 0 < blockSize) (present : ix ≠ []) (inside : ∀ i ∈ ix, i + blockSize < text.length) :
    ∃ data, encode (vocabulary text) text = some data ∧ decode (vocabulary text) data = some text ∧
      (∀ i ∈ ix, ∀ t < blockSize, self.accepts [(data.drop i).take (t + 1)] (t + 1)) ∧
      self.loss p (getBatch data ix blockSize).1 (getBatch data ix blockSize).2 blockSize =
        some ((ix.map (self.positionLoss p data blockSize)).sum /
          ((ix.length * blockSize : Nat) : R)) := by
  have known : ∀ c ∈ text, c ∈ vocabulary text := fun c member => mem_vocabulary.mpr member
  obtain ⟨data, encoded, decoded, length, small⟩ := encode_correct known
  rw [← vocab] at small
  rw [← length] at inside
  have accepted := self.accepts_getBatch fits small inside
  have count : (getBatch data ix blockSize).1.length = ix.length := by simp [getBatch]
  have targets : (getBatch data ix blockSize).2.length = ix.length := by simp [getBatch]
  refine ⟨data, encoded, decoded, ?_, ?_⟩
  · intro i drawn t early
    have shorter : ∀ j ∈ [i], j + (t + 1) < data.length := by
      have := inside i drawn
      simp only [List.mem_singleton, forall_eq]
      omega
    exact (self.accepts_getBatch (by omega) small shorter).1
  · have rows : 0 < ix.length * blockSize := Nat.mul_pos (List.length_pos_iff.mpr present) positive
    have sum : ∑ b ∈ Finset.range ix.length, ∑ t ∈ Finset.range blockSize,
        crossEntropy p self.vocabSize
          (self.logits p blockSize (tokens (getBatch data ix blockSize).1) b t)
          (tokens (getBatch data ix blockSize).2 b t) =
        (ix.map (self.positionLoss p data blockSize)).sum := by
      rw [← sum_getElem, Finset.sum_range]
      exact Finset.sum_congr rfl fun b _ => self.batch_position p b.isLt inside
    have flat := sum_flattened ix.length blockSize positive fun b t =>
      crossEntropy p self.vocabSize
        (self.logits p blockSize (tokens (getBatch data ix blockSize).1) b t)
        (tokens (getBatch data ix blockSize).2 b t)
    unfold loss forward
    rw [if_pos accepted.1]
    simp only [Option.bind_eq_bind, Option.bind_some, count, targets]
    rw [if_pos ⟨rows, trivial, accepted.2⟩, flat, sum]

def samplePrimitives : Primitives ℚ where
  exp x := 1 + x + x * x / 2
  log x := x - 1
  gelu x := if 0 ≤ x then x else 0
  rsqrt _ := 1

def sampleLinear (inFeatures outFeatures : Nat) : DSPLinear ℚ inFeatures outFeatures where
  weight o i := o + 2 * i + 1
  bias := some fun o => o

def sampleModel : TinyTransformer ℚ where
  vocabSize := 2
  dModel := 2
  blockSize := 2
  nHeads := 1
  dMlp := 1
  tokenEmbedding token c := token + c
  posEmbedding t c := t - c
  layers := [{
    qProj := sampleLinear 2 2
    kProj := sampleLinear 2 2
    vProj := sampleLinear 2 2
    outProj := sampleLinear 2 2
    mlpL1 := sampleLinear 2 1
    mlpL2 := sampleLinear 1 2
    divides := one_dvd 2 }]
  lnFinal := { weight := fun _ => 1, bias := fun _ => 0, eps := 1 }
  lmHead := sampleLinear 2 2

theorem loss_next_token_sample :
    ∃ data, encode (vocabulary ['a', 'b', 'b', 'a']) ['a', 'b', 'b', 'a'] = some data ∧
      decode (vocabulary ['a', 'b', 'b', 'a']) data = some ['a', 'b', 'b', 'a'] ∧
      (∀ i ∈ [0, 1], ∀ t < 2, sampleModel.accepts [(data.drop i).take (t + 1)] (t + 1)) ∧
      sampleModel.loss samplePrimitives (getBatch data [0, 1] 2).1 (getBatch data [0, 1] 2).2 2 =
        some (([0, 1].map (sampleModel.positionLoss samplePrimitives data 2)).sum /
          (([0, 1].length * 2 : Nat) : ℚ)) := by
  have vocab : sampleModel.vocabSize = (vocabulary ['a', 'b', 'b', 'a']).length := by
    rw [vocabulary, List.length_mergeSort]
    rfl
  have fits : 2 ≤ sampleModel.blockSize := le_rfl
  have positive : 0 < 2 := Nat.two_pos
  have present : [0, 1] ≠ [] := List.cons_ne_nil 0 [1]
  have inside : ∀ i ∈ [0, 1], i + 2 < ['a', 'b', 'b', 'a'].length := by decide
  exact loss_next_token samplePrimitives sampleModel _ _ _ vocab fits positive present inside

end TinyTransformer

end Loss

end NpuMatmul.Training
