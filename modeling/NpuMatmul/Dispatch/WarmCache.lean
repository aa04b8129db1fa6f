import NpuMatmul.Dispatch.BatchedMatmul
import NpuMatmul.Engine.CachedEntries

set_option autoImplicit false

namespace NpuMatmul

-- m // m_split. A split of 0 raises; the negative sizes of a negative split are left out.
def blockSize (size : Nat) (split : Int) : Option Nat :=
  if 0 < split then some (Int.fdiv size split).toNat else none

namespace State

-- The end of prepare_matmul: has_graph, and prepare_matmul of the extension where it is false.
def prepareGraph (s : State) (m k n : Nat) (useStaticWeights : Bool) (outcome : BuildOutcome) :
    Option State :=
  if s.hasGraph m k n then some s
  else (s.getOrCreateGraph m k n useStaticWeights none outcome).map Prod.fst

def prepareMatmul (s : State) (settings : Settings) (m k n : Nat) (useStaticWeights : Bool)
    (outcome : BuildOutcome) : Option State :=
  let m := padded m
  let k := padded k
  let n := padded n
  if settings.tiled m k n then do
    let splits := settings.splits m k n
    let mBlock ← blockSize m splits.m
    let kBlock ← blockSize k splits.k
    let nBlock ← blockSize n splits.n
    s.prepareGraph mBlock kBlock nBlock useStaticWeights outcome
  else s.prepareGraph m k n useStaticWeights outcome

end State

def PySplits.toSplits (splits : PySplits) : Splits :=
  { m := splits.m.toNat, k := splits.k.toNat, n := splits.n.toNat }

def ExtensionCall.request {R : Type} (call : ExtensionCall R) (useStaticWeights : Bool)
    (outcome : MatmulOutcome) (tiledOutcome : TiledOutcome) : Option Request :=
  match call.a.shape, call.b.shape, call.kernel with
  | [m, k], [_, n], .matmul =>
      some (.matmul m k n call.backendChoice useStaticWeights outcome)
  | [m, k], [_, n], .matmulTiled splits =>
      some (.matmulTiled m k n splits.toSplits call.backendChoice tiledOutcome)
  | _, _, _ => none

def Call.compiles : Call → Bool
  | .graphFinalize _ => true
  | _ => false

namespace State

def compileCount (s : State) : Nat := s.calls.countP Call.compiles

def Holds (cache : List (String × CachedGraph)) (M K N : Nat) : Prop :=
  ∃ graph, cache.lookup (graphKey M K N) = some graph ∧ graph.isValid = true

def FindsGraph (s : State) : Request → Prop
  | .matmul M K N _ _ _ => ∃ graph, s.graphCache.lookup (graphKey M K N) = some graph ∧
      graph.isValid = true ∧ graph.M = M ∧ graph.K = K ∧ graph.N = N
  | .matmulTiled M K N splits _ _ => ∃ graph, s.globalDynamicFcGraphs.lookup
      (graphKey (M / splits.m) (K / splits.k) (N / splits.n)) = some graph ∧
        graph.isValid = true ∧ graph.M = M / splits.m ∧ graph.K = K / splits.k ∧
          graph.N = N / splits.n
  | _ => False

structure Warm (s : State) (request : Request) : Prop where
  finds : s.FindsGraph request
  compiles : ∀ next, step s request = some next → next.compileCount = s.compileCount

section Count

variable {s : State} {graph : CachedGraph}

@[simp] theorem compileCount_hit : (s.hit graph).compileCount = s.compileCount := by
  simp [compileCount, Call.compiles]

theorem compileCount_execute (useStaticWeights : Bool) (outcome : ExecuteOutcome) :
    (s.execute graph useStaticWeights outcome).compileCount =
      s.compileCount + if useStaticWeights then 1 else 0 := by
  cases useStaticWeights <;> simp [execute, compileCount, Call.compiles, List.countP_cons]

theorem compileCount_executeRounds (executed : Nat → Bool) (rounds : Nat) :
    (s.executeRounds graph executed rounds).compileCount = s.compileCount := by
  induction rounds with
  | zero => rfl
  | succ rounds ih => simpa [executeRounds, compileCount, Call.compiles] using ih

end Count

section Requests

variable {s : State} {M K N : Nat} {backendChoice : Int} {useStaticWeights : Bool}
  {graph : CachedGraph}

theorem step_matmul_hit (nonempty : K ≠ 0) (serving : s.serves backendChoice = true)
    (found : s.graphCache.lookup (graphKey M K N) = some graph) (valid : graph.isValid = true)
    (outcome : MatmulOutcome) :
    step s (.matmul M K N backendChoice useStaticWeights outcome) =
      some ((s.hit graph).execute graph useStaticWeights outcome.execute) := by
  rw [← weightsKey_none M K N useStaticWeights] at found
  simp [step, matmulNpu, matmulInt8, loadBackend_serves s _ serving, serves_isLoaded serving,
    getOrCreateGraph_hit found, valid, nonempty]

theorem step_matmulTiled_hit {splits : Splits} (serving : s.serves backendChoice = true)
    (divisors : ¬ (splits.m = 0 ∨ splits.k = 0 ∨ splits.n = 0 ∨ K = 0))
    (found : s.globalDynamicFcGraphs.lookup
      (graphKey (M / splits.m) (K / splits.k) (N / splits.n)) = some graph)
    (valid : graph.isValid = true) (outcome : TiledOutcome) :
    step s (.matmulTiled M K N splits backendChoice outcome) =
      some ((s.hit graph).executeRounds graph outcome.executed splits.k) := by
  simp only [step, matmulTiledNpu, matmulTiled, loadBackend_serves s _ serving,
    serves_isLoaded serving, divisors, dynamicGraph, found, valid]
  rfl

theorem warm_matmul_iff (nonempty : K ≠ 0) (keyed : KeyedByShape s) (serving : s.serves backendChoice = true)
    (outcome : MatmulOutcome) :
    s.Warm (.matmul M K N backendChoice useStaticWeights outcome) ↔
      useStaticWeights = false ∧ Holds s.graphCache M K N := by
  constructor
  · rintro ⟨⟨graph, found, valid, _⟩, compiles⟩
    have same := compiles _ (step_matmul_hit nonempty serving found valid outcome)
    rw [compileCount_execute, compileCount_hit] at same
    refine ⟨?_, graph, found, valid⟩
    cases useStaticWeights with
    | false => rfl
    | true => simp at same
  · rintro ⟨rfl, graph, found, valid⟩
    obtain ⟨_, _, key⟩ := keyed.graphs _ (mem_of_lookup found)
    obtain ⟨rows, inner, columns⟩ := weightsKey_shape key.symm
    refine ⟨⟨graph, found, valid, rows, inner, columns⟩, fun next moved => ?_⟩
    rw [step_matmul_hit nonempty serving found valid outcome] at moved
    cases moved
    simp [compileCount_execute]

theorem warm_matmulTiled_iff {splits : Splits} (keyed : KeyedByShape s)
    (serving : s.serves backendChoice = true)
    (divisors : ¬ (splits.m = 0 ∨ splits.k = 0 ∨ splits.n = 0 ∨ K = 0)) (outcome : TiledOutcome) :
    s.Warm (.matmulTiled M K N splits backendChoice outcome) ↔
      Holds s.globalDynamicFcGraphs (M / splits.m) (K / splits.k) (N / splits.n) := by
  constructor
  · rintro ⟨⟨graph, found, valid, _⟩, _⟩
    exact ⟨graph, found, valid⟩
  · rintro ⟨graph, found, valid⟩
    have key := keyed.dynamic _ (mem_of_lookup found)
    obtain ⟨rows, inner, columns⟩ := graphKey_shape key.symm
    refine ⟨⟨graph, found, valid, rows, inner, columns⟩, fun next moved => ?_⟩
    rw [step_matmulTiled_hit serving divisors found valid outcome] at moved
    cases moved
    simp [compileCount_executeRounds]

end Requests

section Prepare

variable {s t : State} {m k n : Nat} {useStaticWeights : Bool} {outcome : BuildOutcome}

structure Prepared (s t : State) (m k n : Nat) (outcome : BuildOutcome) : Prop where
  keyed : KeyedByShape t
  backend : ∀ backendChoice, s.serves backendChoice = true → t.serves backendChoice = true
  dynamic : t.globalDynamicFcGraphs = s.globalDynamicFcGraphs
  graph : Holds t.graphCache m k n ↔ served s.graphCache (graphKey m k n) outcome = true

theorem prepareGraph_prepared (keyed : KeyedByShape s)
    (prepared : s.prepareGraph m k n useStaticWeights outcome = some t) :
    Prepared s t m k n outcome := by
  unfold prepareGraph at prepared
  split at prepared
  case isTrue present =>
    cases prepared
    obtain ⟨graph, found⟩ := Option.isSome_iff_exists.mp present
    exact ⟨keyed, fun _ serving => serving, rfl, by simp [Holds, served, found]⟩
  case isFalse absent =>
    obtain ⟨⟨_, graph⟩, returned, rfl⟩ := Option.map_eq_some_iff.mp prepared
    have missing : s.graphCache.lookup (graphKey m k n) = none :=
      Option.not_isSome_iff_eq_none.mp absent
    have grown := keyed.grow (keyed.formed.getOrCreateGraph returned)
      (EntriesGrow.getOrCreateGraph returned)
    have others := (getOrCreateGraph_others returned).1
    have key := weightsKey_none m k n useStaticWeights
    obtain ⟨found, _⟩ | ⟨_, _, ⟨done, _, rfl⟩ | ⟨failed, _, rfl⟩⟩ := getOrCreateGraph_cases returned
    · rw [key, missing] at found
      cases found
    all_goals
      refine ⟨grown, fun _ serving => ?_, others, ?_⟩
      · simpa [cacheBuilt, cacheFailed, serves, isLoaded] using serving
      · simp [Holds, served, cacheBuilt, cacheFailed, builtEntry, *]

end Prepare

end State

def Settings.PositiveSplits (settings : Settings) : Prop :=
  (∀ split, settings.globalMSplit = some split → 1 ≤ split) ∧
    (∀ split, settings.globalKSplit = some split → 1 ≤ split) ∧
      ∀ split, settings.globalNSplit = some split → 1 ≤ split

theorem splits_positive {settings : Settings} (positive : settings.PositiveSplits) (m k n : Nat) :
    1 ≤ (settings.splits m k n).m ∧ 1 ≤ (settings.splits m k n).k ∧
      1 ≤ (settings.splits m k n).n := by
  have override {split : Option Int} {default : Int}
      (given : ∀ value, split = some value → 1 ≤ value) (least : 1 ≤ default) :
      1 ≤ split.getD default := by
    cases split with
    | none => exact least
    | some value => exact given value rfl
  have size (dim : Nat) : 1 ≤ Settings.defaultSplit dim := le_max_left _ _
  have inner : 1 ≤ settings.defaultKSplit k := by
    unfold Settings.defaultKSplit
    split
    · exact le_max_left _ _
    · exact le_refl _
  exact ⟨override positive.1 (size m), override positive.2.1 inner, override positive.2.2 (size n)⟩

theorem blockSize_positive {size : Nat} {split : Int} (positive : 1 ≤ split) :
    blockSize size split = some (size / split.toNat) := by
  obtain ⟨divisor, rfl⟩ := Int.eq_ofNat_of_zero_le (Int.le_trans Int.one_nonneg positive)
  have present : (0 : Int) < divisor := positive
  simp only [blockSize, if_pos present, Int.toNat_natCast]
  rw [← Int.ofNat_fdiv, Int.toNat_natCast]

-- The multiplication through matmul_patch is one call of the extension, and it is served warm.
def WarmMultiplication {R : Type} [Zero R] (s : State) (settings : Settings)
    (backends : Backends R) (a b : TorchTensor R) (frames : Nat) (useStaticWeights : Bool)
    (outcome : MatmulOutcome) (tiledOutcome : TiledOutcome) : Prop :=
  ∃ call request, (matmulPatch settings backends frames a b none none).calls = [call] ∧
    call.request useStaticWeights outcome tiledOutcome = some request ∧ s.Warm request

theorem warmMultiplication_iff {R : Type} [Zero R] {s : State} {settings : Settings}
    {backends : Backends R} {a b : TorchTensor R} {frames : Nat} {useStaticWeights : Bool}
    {outcome : MatmulOutcome} {tiledOutcome : TiledOutcome} {call : ExtensionCall R}
    {request : Request}
    (calls : (matmulPatch settings backends frames a b none none).calls = [call])
    (asked : call.request useStaticWeights outcome tiledOutcome = some request) :
    WarmMultiplication s settings backends a b frames useStaticWeights outcome tiledOutcome ↔
      s.Warm request := by
  constructor
  · rintro ⟨made, other, same, requested, warm⟩
    rw [calls, List.singleton_inj] at same
    rw [← same, asked, Option.some.injEq] at requested
    rwa [requested]
  · exact fun warm => ⟨call, request, calls, asked, warm⟩

-- What had to be there: for a tiled multiplication its graph, in the cache that prepare_matmul does
-- not fill; for the others a valid entry or a creation that finalised.
def Settings.Prewarmed (settings : Settings) (s : State) (m k n : Nat) (useStaticWeights : Bool)
    (outcome : BuildOutcome) : Prop :=
  if settings.tiled m k n then
    let splits := (settings.splits m k n).toSplits
    State.Holds s.globalDynamicFcGraphs (m / splits.m) (k / splits.k) (n / splits.n)
  else
    useStaticWeights = false ∧ State.served s.graphCache (graphKey m k n) outcome = true

-- After prepare_matmul the multiplication of these shapes compiles nothing exactly when it would
-- not have to, tiled, or when its graph was finalised and the weights are dynamic.
theorem prepared_warm_iff {R : Type} [Zero R] {load : LoadOutcome} {requests : List Request}
    {s t : State} (reached : Runs.after step (start load) requests = some s) {settings : Settings}
    (serving : s.serves settings.defaultBackendChoice = true)
    (positive : settings.PositiveSplits) {m k n : Nat} (inner : 1 ≤ k) {useStaticWeights : Bool}
    {outcome : BuildOutcome}
    (prepared : s.prepareMatmul settings m k n useStaticWeights outcome = some t)
    {backends : Backends R} {a b : TorchTensor R} (cpuA : a.CpuFloat32) (cpuB : b.CpuFloat32)
    (left : a.shape = [m, k]) (right : b.shape = [k, n]) (frames : Nat)
    (matmulOutcome : MatmulOutcome) (tiledOutcome : TiledOutcome) :
    WarmMultiplication t settings backends a b (frames + 2) useStaticWeights matmulOutcome
        tiledOutcome ↔
      settings.Prewarmed s (padded m) (padded k) (padded n) useStaticWeights outcome := by
  have keyed := keyedByShape_after reached
  have nonempty : padded k ≠ 0 := by
    unfold padded
    omega
  cases tiled : settings.tiled (padded m) (padded k) (padded n) with
  | false =>
      simp only [State.prepareMatmul, tiled] at prepared
      have ready := State.prepareGraph_prepared keyed prepared
      have selected : settings.select (padded m) (padded k) (padded n) = some .matmul := by
        simp [Settings.select, tiled]
      obtain ⟨made, calls, kernel, choice, shapeA, shapeB⟩ :=
        matmulPatch_call cpuA cpuB left right selected frames none
      have request : made.request useStaticWeights matmulOutcome tiledOutcome =
          some (.matmul (padded m) (padded k) (padded n) settings.defaultBackendChoice
            useStaticWeights matmulOutcome) := by
        simp [ExtensionCall.request, shapeA, shapeB, kernel, choice, chosen]
      rw [warmMultiplication_iff calls request, State.warm_matmul_iff nonempty ready.keyed
        (ready.backend _ serving), ready.graph, Settings.Prewarmed, tiled]
      rfl
  | true =>
      have splits := splits_positive positive (padded m) (padded k) (padded n)
      simp only [State.prepareMatmul, tiled, blockSize_positive splits.1,
        blockSize_positive splits.2.1, blockSize_positive splits.2.2] at prepared
      have ready := State.prepareGraph_prepared keyed prepared
      have divisors : (settings.splits (padded m) (padded k) (padded n)).hasZero = false := by
        simp only [PySplits.hasZero, Bool.or_eq_false_iff, decide_eq_false_iff_not]
        omega
      have selected : settings.select (padded m) (padded k) (padded n) =
          some (.matmulTiled (settings.splits (padded m) (padded k) (padded n))) := by
        simp [Settings.select, tiled, divisors]
      obtain ⟨made, calls, kernel, choice, shapeA, shapeB⟩ :=
        matmulPatch_call cpuA cpuB left right selected frames none
      have request : made.request useStaticWeights matmulOutcome tiledOutcome =
          some (.matmulTiled (padded m) (padded k) (padded n)
            (settings.splits (padded m) (padded k) (padded n)).toSplits
            settings.defaultBackendChoice tiledOutcome) := by
        simp [ExtensionCall.request, shapeA, shapeB, kernel, choice, chosen]
      have nonzero : ¬ ((settings.splits (padded m) (padded k) (padded n)).toSplits.m = 0 ∨
          (settings.splits (padded m) (padded k) (padded n)).toSplits.k = 0 ∨
            (settings.splits (padded m) (padded k) (padded n)).toSplits.n = 0 ∨
              padded k = 0) := by
        simp only [PySplits.toSplits]
        omega
      rw [warmMultiplication_iff calls request, State.warm_matmulTiled_iff ready.keyed
        (ready.backend _ serving) nonzero, ready.dynamic, Settings.Prewarmed, tiled]
      rfl

section Sample

def loadedEngine : State := start (loadsWith fullTable)

-- The graph is compiled again by the multiplication: tiled, it is looked up in the other cache, and
-- with static weights it is a temporary one.
theorem prepared_compiles_again :
    (∃ t call request next, loadedEngine.prepareMatmul plainSettings 2048 4 4 false .finalized =
        some t ∧
      (matmulPatch plainSettings multiplyingBackends 2 (tensorOf [2048, 4]) (tensorOf [4, 4]) none
        none).calls = [call] ∧
      call.request false (matmulWith .finalized true) (tiledWith .finalized true) = some request ∧
      step t request = some next ∧ next.compileCount = t.compileCount + 1) ∧
    ∃ t call request next, loadedEngine.prepareMatmul plainSettings 4 4 4 true .finalized =
        some t ∧
      (matmulPatch plainSettings multiplyingBackends 2 (tensorOf [4, 4]) (tensorOf [4, 4]) none
        none).calls = [call] ∧
      call.request true (matmulWith .finalized true) (tiledWith .finalized true) = some request ∧
      step t request = some next ∧ next.compileCount = t.compileCount + 1 :=
  ⟨⟨_, _, _, _, rfl, rfl, rfl, rfl, rfl⟩, ⟨_, _, _, _, rfl, rfl, rfl, rfl, rfl⟩⟩

theorem plainSettings_positive : plainSettings.PositiveSplits := by
  simp [Settings.PositiveSplits, plainSettings]

theorem prepared_square_warm :
    ∃ t, loadedEngine.prepareMatmul plainSettings 4 4 4 false .finalized = some t ∧
      WarmMultiplication t plainSettings multiplyingBackends (tensorOf [4, 4]) (tensorOf [4, 4]) 2
        false (matmulWith .finalized true) (tiledWith .finalized true) := by
  have reached : Runs.after step (start (loadsWith fullTable)) [] = some loadedEngine := rfl
  have serving : loadedEngine.serves plainSettings.defaultBackendChoice = true := rfl
  have prepared : loadedEngine.prepareMatmul plainSettings 4 4 4 false .finalized = some _ := rfl
  have cpu : (tensorOf [4, 4]).CpuFloat32 := ⟨rfl, rfl⟩
  have warm : plainSettings.Prewarmed loadedEngine (padded 4) (padded 4) (padded 4) false
      .finalized := ⟨rfl, rfl⟩
  exact ⟨_, prepared, (prepared_warm_iff reached serving plainSettings_positive (by decide) prepared
    cpu cpu rfl rfl 0 _ _).mpr warm⟩

end Sample

end NpuMatmul
