import NpuMatmul.Engine.RequestSpec
import NpuMatmul.Pipeline.KernelSpec

set_option autoImplicit false

namespace NpuMatmul

open Loop

-- Computed from output buffers that executions of the call wrote, and from at least one.
def Delivered (cell : Cell) : Prop := cell ≠ [] ∧ ∀ written ∈ cell, written = true

-- No path of the two entry points raises, so a call has to return a whole product.
def Delivers (M N : Nat) (returned : Option (State × (Nat → Cell))) : Prop :=
  ∃ t C, returned = some (t, C) ∧ ∀ r < M, ∀ c < N, Delivered (C (r * N + c))

def FallsBack (s : State) (returned : Option (State × (Nat → Cell))) : Prop :=
  ∃ t C, returned = some (t, C) ∧ s.fallbacks < t.fallbacks

section Cells

theorem delivered_single (written : Bool) : Delivered [written] ↔ written = true := by
  simp [Delivered]

theorem delivered_rounds (executed : Nat → Bool) (rounds : Nat) :
    Delivered ((List.range rounds).map executed) ↔
      0 < rounds ∧ ∀ i < rounds, executed i = true := by
  simp only [Delivered, ne_eq, List.map_eq_nil_iff, List.range_eq_nil, List.forall_mem_map,
    List.mem_range, Nat.pos_iff_ne_zero]

theorem tiledRounds_hit {mBlock nBlock N : Nat} (executed : Nat → Bool) (rounds : Nat)
    (C : Nat → Cell) (narrow : nBlock ≤ N) {r c : Nat} (below : r < mBlock) (inside : c < nBlock) :
    State.tiledRounds mBlock nBlock N executed rounds C (r * N + c) =
      C (r * N + c) ++ (List.range rounds).map executed := by
  have cell : State.tiledRounds mBlock nBlock N executed rounds C (r * N + c) =
      forLoop rounds (fun step cell => cell ++ [executed step]) (C (r * N + c)) := by
    apply forLoop_project fun C : Nat → Cell => C (r * N + c)
    intro step C _
    exact updateCells_hit _ C narrow below inside
  rw [cell]
  clear cell
  induction rounds with
  | zero => simp
  | succ rounds ih => simp [forLoop, ih, List.range_succ]

theorem tiledRounds_miss {mBlock nBlock N : Nat} (executed : Nat → Bool) (rounds : Nat)
    (C : Nat → Cell) (narrow : nBlock ≤ N) {r c : Nat} (inside : c < N)
    (outside : ¬ (r < mBlock ∧ c < nBlock)) :
    State.tiledRounds mBlock nBlock N executed rounds C (r * N + c) = C (r * N + c) := by
  apply forLoop_keeps (P := fun current : Nat → Cell => current (r * N + c) = C (r * N + c))
  · rfl
  · intro step current _ same
    rw [updateCells_miss _ current narrow inside outside, same]

theorem delivers_some {M N : Nat} {t : State} {C : Nat → Cell} :
    Delivers M N (some (t, C)) ↔ ∀ r < M, ∀ c < N, Delivered (C (r * N + c)) := by
  constructor
  · rintro ⟨_, _, returned, every⟩
    cases returned
    exact every
  · intro every
    exact ⟨t, C, rfl, every⟩

theorem delivers_written {M N : Nat} (t : State) (written : Bool) (C : Nat → Cell) :
    Delivers M N (some (t, updateCells M N N (fun _ _ _ => [written]) C)) ↔
      M = 0 ∨ N = 0 ∨ written = true := by
  have cell {r c : Nat} (below : r < M) (inside : c < N) :
      updateCells M N N (fun _ _ _ => [written]) C (r * N + c) = [written] :=
    updateCells_hit _ C le_rfl below inside
  rw [delivers_some]
  constructor
  · intro every
    by_cases empty : M = 0 ∨ N = 0
    · exact empty.imp_right Or.inl
    · have first := every 0 (by omega) 0 (by omega)
      rw [cell (by omega) (by omega), delivered_single] at first
      exact Or.inr (Or.inr first)
  · intro met r below c inside
    rw [cell below inside, delivered_single]
    obtain rfl | rfl | written := met
    · omega
    · omega
    · exact written

theorem not_delivers_none {M N : Nat} : ¬ Delivers M N none := by
  rintro ⟨_, _, returned, _⟩
  cases returned

theorem delivers_blank {M N : Nat} (t : State) {C : Nat → Cell}
    (blank : ∀ r < M, ∀ c < N, C (r * N + c) = []) :
    Delivers M N (some (t, C)) ↔ M = 0 ∨ N = 0 := by
  rw [delivers_some]
  constructor
  · intro every
    by_contra cells
    have first := every 0 (by omega) 0 (by omega)
    rw [blank 0 (by omega) 0 (by omega)] at first
    exact first.1 rfl
  · intro empty r below c inside
    omega

theorem delivers_rounds {M N : Nat} (t : State) {splits : Splits} (executed : Nat → Bool)
    {C : Nat → Cell} (blank : ∀ r < M, ∀ c < N, C (r * N + c) = [])
    (rows : splits.m ≠ 0) (rounds : splits.k ≠ 0) (cols : splits.n ≠ 0) :
    Delivers M N (some (t, State.tiledRounds (M / splits.m) (N / splits.n) N executed splits.k C)) ↔
      M = 0 ∨ N = 0 ∨ (splits.m = 1 ∧ splits.n = 1 ∧ ∀ i < splits.k, executed i = true) := by
  have narrow : N / splits.n ≤ N := Nat.div_le_self N splits.n
  rw [delivers_some]
  constructor
  · intro every
    by_cases empty : M = 0 ∨ N = 0
    · exact empty.imp_right Or.inl
    · have last := every (M - 1) (by omega) (N - 1) (by omega)
      by_cases covered : M - 1 < M / splits.m ∧ N - 1 < N / splits.n
      · rw [tiledRounds_hit executed splits.k C narrow covered.1 covered.2,
          blank _ (by omega) _ (by omega), List.nil_append, delivered_rounds] at last
        exact Or.inr (Or.inr ⟨div_eq_one_of_last (by omega) covered.1,
          div_eq_one_of_last (by omega) covered.2, last.2⟩)
      · rw [tiledRounds_miss executed splits.k C narrow (by omega) covered,
          blank _ (by omega) _ (by omega)] at last
        exact absurd rfl last.1
  · intro met r below c inside
    obtain rfl | rfl | ⟨oneRow, oneCol, succeeded⟩ := met
    · omega
    · omega
    · rw [tiledRounds_hit executed splits.k C narrow (by simpa [oneRow] using below)
        (by simpa [oneCol] using inside), blank r below c inside, List.nil_append,
        delivered_rounds]
      exact ⟨by omega, succeeded⟩

end Cells

def MatmulSucceeds (s : State) (M K N : Nat) (backendChoice : Int) (outcome : MatmulOutcome) :
    Prop :=
  if s.loadSucceeds backendChoice outcome.load then
    State.served (s.retained backendChoice) (graphKey M K N) outcome.graph ∧
      outcome.execute.executed = true
  else
    let model := s.fetchedModel M K N backendChoice outcome.model
    model.interpreter = true ∧ outcome.invoked = true ∧ model.outputBound = true

def TiledSucceeds (s : State) (M K N : Nat) (splits : Splits) (backendChoice : Int)
    (outcome : TiledOutcome) : Prop :=
  s.loadSucceeds backendChoice outcome.load = true ∧
    State.served s.globalDynamicFcGraphs
      (graphKey (M / splits.m) (K / splits.k) (N / splits.n)) outcome.graph ∧
    splits.m = 1 ∧ splits.n = 1 ∧ ∀ i < splits.k, outcome.executed i = true

section EntryPoints

variable {s : State} (formed : s.WellFormed) (M K N : Nat) (splits : Splits) (backendChoice : Int)
  (useStaticWeights : Bool) (outcome : MatmulOutcome) (tiled : TiledOutcome)

theorem dynamicGraph_served (s : State) (build : BuildOutcome) :
    (s.dynamicGraph M K N build).2.isValid =
      State.served s.globalDynamicFcGraphs (graphKey M K N) build := by
  unfold State.dynamicGraph State.served
  split <;> simp [*, State.builtEntry]

include formed in
theorem matmulNpu_delivers_iff :
    Delivers M N (s.matmulNpu M K N backendChoice useStaticWeights outcome) ↔
      (Quantises s M K N backendChoice outcome → K ≠ 0) ∧
        (M = 0 ∨ N = 0 ∨ MatmulSucceeds s M K N backendChoice outcome) := by
  obtain ⟨loads, _⟩ := State.loadBackend_correct formed backendChoice outcome.load
  by_cases returns : Quantises s M K N backendChoice outcome → K ≠ 0
  case neg =>
    have crashed := (matmulInt8_none_iff formed M K N backendChoice useStaticWeights outcome
      fun _ => []).mpr (by simpa using returns)
    rw [State.matmulNpu, crashed]
    exact iff_of_false not_delivers_none fun met => returns met.1
  rw [and_iff_right returns]
  unfold Quantises at returns
  unfold MatmulSucceeds State.matmulNpu State.matmulInt8
  dsimp only
  by_cases ready : s.loadSucceeds backendChoice outcome.load = true
  · rw [ready] at loads
    obtain ⟨t, graph, created, valid⟩ := getOrCreateGraph_served formed M K N backendChoice
      useStaticWeights outcome.load outcome.graph loads
    rw [if_pos ready, ← valid] at returns
    rw [if_pos loads, if_pos ready, created, ← valid]
    dsimp only
    by_cases usable : graph.isValid = true
    · rw [if_pos usable, if_neg (returns usable), delivers_written]
      simp [usable]
    · rw [if_neg usable, delivers_blank t fun _ _ _ _ => rfl]
      simp [usable]
  · have idle : ¬ (s.loadBackend backendChoice outcome.load).isLoaded = true := by
      rw [loads]
      exact ready
    rw [if_neg ready] at returns
    have undivided : ¬ ((s.fetchedModel M K N backendChoice outcome.model).interpreter = true ∧
        backendChoice ≠ 3 ∧ K = 0) :=
      fun crashes => returns ⟨crashes.1, crashes.2.1⟩ crashes.2.2
    rw [if_neg idle, if_neg ready, fetchModel_fetched, fetchedModel_loadBackend formed,
      if_neg undivided]
    unfold State.invoke
    by_cases invoked : (s.fetchedModel M K N backendChoice outcome.model).interpreter &&
        outcome.invoked
    · rw [if_pos invoked, delivers_written]
      simp only [Bool.and_eq_true] at invoked
      simp [invoked]
    · rw [if_neg invoked, delivers_blank _ fun _ _ _ _ => rfl]
      simp only [Bool.and_eq_true] at invoked
      have failed (rest : Prop) : ¬ (_ ∧ outcome.invoked = true ∧ rest) :=
        fun both => invoked ⟨both.1, both.2.1⟩
      simp [failed]

include formed in
theorem matmulTiledNpu_delivers_iff :
    Delivers M N (s.matmulTiledNpu M K N splits backendChoice tiled) ↔
      (s.loadSucceeds backendChoice tiled.load = true →
          splits.m ≠ 0 ∧ splits.k ≠ 0 ∧ splits.n ≠ 0 ∧ K ≠ 0) ∧
        (M = 0 ∨ N = 0 ∨ TiledSucceeds s M K N splits backendChoice tiled) := by
  obtain ⟨loads, _, _, kept⟩ := State.loadBackend_correct formed backendChoice tiled.load
  have served := dynamicGraph_served (M / splits.m) (K / splits.k) (N / splits.n)
    (s.loadBackend backendChoice tiled.load) tiled.graph
  rw [kept.globalDynamicFcGraphs] at served
  have cleared : ∀ r < M, ∀ c < N, store (M * N) id (fun _ => ([] : Cell)) (fun _ => [])
      (r * N + c) = [] := by
    intro r below c inside
    exact store_written (M * N) id (fun _ => ([] : Cell)) _ (by simp; omega) _
      (rowMajor_lt below inside)
  unfold TiledSucceeds State.matmulTiledNpu State.matmulTiled
  dsimp only
  by_cases ready : s.loadSucceeds backendChoice tiled.load = true
  · rw [ready] at loads
    rw [if_pos loads]
    by_cases divisor : splits.m = 0 ∨ splits.k = 0 ∨ splits.n = 0 ∨ K = 0
    · rw [if_pos divisor]
      refine iff_of_false not_delivers_none ?_
      rintro ⟨nonzero, _⟩
      obtain ⟨rows, rounds, cols, inner⟩ := nonzero ready
      simp [rows, rounds, cols, inner] at divisor
    · simp only [not_or] at divisor
      rw [if_neg (by simpa using divisor)]
      by_cases usable : ((s.loadBackend backendChoice tiled.load).dynamicGraph (M / splits.m)
          (K / splits.k) (N / splits.n) tiled.graph).2.isValid = true
      · rw [if_pos usable,
          delivers_rounds _ tiled.executed cleared divisor.1 divisor.2.1 divisor.2.2.1]
        rw [served] at usable
        simp [ready, divisor, usable]
      · rw [if_neg usable, delivers_blank _ cleared]
        rw [served] at usable
        simp [ready, divisor, usable]
  · have idle : ¬ (s.loadBackend backendChoice tiled.load).isLoaded = true := by
      rw [loads]
      exact ready
    rw [if_neg idle, delivers_blank _ fun _ _ _ _ => rfl]
    simp [ready]

include formed in
theorem matmulNpu_fallsBack_iff :
    FallsBack s (s.matmulNpu M K N backendChoice useStaticWeights outcome) ↔
      s.loadSucceeds backendChoice outcome.load = false ∧
        (Quantises s M K N backendChoice outcome → K ≠ 0) := by
  obtain ⟨loads, _, _, kept⟩ := State.loadBackend_correct formed backendChoice outcome.load
  have crashes := matmulInt8_none_iff formed M K N backendChoice useStaticWeights outcome fun _ => []
  unfold State.matmulNpu
  cases returned : s.matmulInt8 M K N backendChoice useStaticWeights outcome fun _ => [] with
  | none =>
      obtain ⟨quantises, empty⟩ := crashes.mp returned
      refine iff_of_false ?_ fun met => met.2 quantises empty
      rintro ⟨_, _, some, _⟩
      cases some
  | some result =>
      obtain ⟨t, C⟩ := result
      have returns : Quantises s M K N backendChoice outcome → K ≠ 0 := by
        intro quantises empty
        rw [crashes.mpr ⟨quantises, empty⟩] at returned
        cases returned
      have counted : FallsBack s (some (t, C)) ↔ s.fallbacks < t.fallbacks := by
        constructor
        · rintro ⟨_, _, some, more⟩
          cases some
          exact more
        · exact fun more => ⟨t, C, rfl, more⟩
      rw [counted, and_iff_left returns, ← loads]
      obtain ⟨ready, u, graph, created, ran⟩ | ⟨idle, rfl⟩ := State.matmulInt8_cases returned
      · have same := State.getOrCreateGraph_sameBackend created
        have steady : t.fallbacks = s.fallbacks := by
          rw [← kept.fallbacks, ← same.fallbacks]
          obtain ⟨_, rfl⟩ | ⟨_, rfl⟩ := ran
          · exact (State.execute_same u graph useStaticWeights outcome.execute).1.fallbacks
          · rfl
        simp [ready, steady]
      · obtain ⟨models, fetched⟩ := State.fetchModel_fields
          (s.loadBackend backendChoice outcome.load) M K N backendChoice outcome.model
        simp [idle, fetched, kept.fallbacks]

include formed in
theorem matmulTiledNpu_never_fallsBack :
    ¬ FallsBack s (s.matmulTiledNpu M K N splits backendChoice tiled) := by
  obtain ⟨_, _, _, kept⟩ := State.loadBackend_correct formed backendChoice tiled.load
  rintro ⟨t, C, returned, more⟩
  have found := (State.dynamicGraph_same (s.loadBackend backendChoice tiled.load)
    (M / splits.m) (K / splits.k) (N / splits.n) tiled.graph).1
  have ran := fun u graph => (State.executeRounds_same u graph tiled.executed splits.k).1
  have steady : t.fallbacks = s.fallbacks := by
    rw [← kept.fallbacks]
    simp only [State.matmulTiledNpu, State.matmulTiled] at returned
    split at returned
    · split at returned
      · cases returned
      · rw [← found.fallbacks]
        split at returned <;> cases returned
        · exact (ran _ _).fallbacks
        · rfl
    · cases returned
      rfl
  omega

end EntryPoints

def SameFallback (s : State) (M K N : Nat) (splits : Splits) (backendChoice : Int)
    (useStaticWeights : Bool) (outcome : MatmulOutcome) (tiled : TiledOutcome) : Prop :=
  FallsBack s (s.matmulNpu M K N backendChoice useStaticWeights outcome) ↔
    FallsBack s (s.matmulTiledNpu M K N splits backendChoice { tiled with load := outcome.load })

-- A call delivers its product exactly when nothing on its path fails, no block has size 0 and, for
-- the tiled kernel, the rows and columns are not split.
theorem matmul_delivers_iff {load : LoadOutcome} {requests : List Request} {s : State}
    (reached : Runs.after step (start load) requests = some s) (M K N : Nat) (splits : Splits)
    (backendChoice : Int) (useStaticWeights : Bool) (outcome : MatmulOutcome)
    (tiled : TiledOutcome) :
    (Delivers M N (s.matmulNpu M K N backendChoice useStaticWeights outcome) ↔
      (Quantises s M K N backendChoice outcome → K ≠ 0) ∧
        (M = 0 ∨ N = 0 ∨ MatmulSucceeds s M K N backendChoice outcome)) ∧
    (Delivers M N (s.matmulTiledNpu M K N splits backendChoice tiled) ↔
      (s.loadSucceeds backendChoice tiled.load = true →
          splits.m ≠ 0 ∧ splits.k ≠ 0 ∧ splits.n ≠ 0 ∧ K ≠ 0) ∧
        (M = 0 ∨ N = 0 ∨ TiledSucceeds s M K N splits backendChoice tiled)) ∧
    (SameFallback s M K N splits backendChoice useStaticWeights outcome tiled ↔
      s.loadSucceeds backendChoice outcome.load = true ∨
        (Quantises s M K N backendChoice outcome ∧ K = 0)) := by
  have formed := wellFormed_after reached
  refine ⟨matmulNpu_delivers_iff formed M K N backendChoice useStaticWeights outcome,
    matmulTiledNpu_delivers_iff formed M K N splits backendChoice tiled, ?_⟩
  unfold SameFallback
  rw [matmulNpu_fallsBack_iff formed M K N backendChoice useStaticWeights outcome]
  have never := matmulTiledNpu_never_fallsBack formed M K N splits backendChoice
    { tiled with load := outcome.load }
  rw [iff_false_right never, not_and_or, Bool.not_eq_false, Classical.not_imp, not_not]

theorem matmul_delivers_loaded :
    Delivers 1 1 ((start (loadsWith fullTable)).matmulTiledNpu 1 1 1 whole 1
      (tiledWith .finalized true)) := by
  have reached : Runs.after step (start (loadsWith fullTable)) [] =
      some (start (loadsWith fullTable)) := rfl
  have delivers := (matmul_delivers_iff reached 1 1 1 whole 1 false (matmulWith .finalized true)
    (tiledWith .finalized true)).2.1
  apply delivers.mpr
  refine ⟨fun _ => by decide, Or.inr (Or.inr ⟨rfl, rfl, rfl, rfl, ?_⟩)⟩
  intro i _
  rfl

-- On a loaded engine a graph that does not finalise leaves the zeros, and a graphExecute that
-- fails is decoded all the same.
theorem matmul_fails_silently :
    Runs.after step (start (loadsWith fullTable)) [] = some (start (loadsWith fullTable)) ∧
      ¬ Delivers 1 1 ((start (loadsWith fullTable)).matmulNpu 1 1 1 1 false
        (matmulWith .notFinalized true)) ∧
      ¬ Delivers 1 1 ((start (loadsWith fullTable)).matmulTiledNpu 1 1 1 whole 1
        (tiledWith .finalized false)) := by
  have formed := wellFormed_start (loadsWith fullTable)
  refine ⟨rfl, ?_, ?_⟩
  · rw [matmulNpu_delivers_iff formed]
    rintro ⟨_, empty | empty | succeeds⟩
    · cases empty
    · cases empty
    · exact Bool.false_ne_true succeeds.1
  · rw [matmulTiledNpu_delivers_iff formed]
    rintro ⟨_, empty | empty | succeeds⟩
    · cases empty
    · cases empty
    · exact Bool.false_ne_true (succeeds.2.2.2.2 0 (by decide))

end NpuMatmul
