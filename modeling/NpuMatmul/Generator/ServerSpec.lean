import NpuMatmul.Generator.CompileServer
import NpuMatmul.Generator.Protocol

set_option autoImplicit false

namespace NpuMatmul

open Extraction

section Sizes

def sizesIn (ws : List (List Byte)) : Int × Int × Int :=
  let (M, ws) := take 0 ws
  let (K, ws) := take 0 ws
  let (N, _) := take 0 ws
  (M, K, N)

theorem numeric_rest (value : Int) {ws : List (List Byte)} (numeric : ∀ word ∈ ws, Numeric word) :
    ∀ word ∈ (take value ws).2, Numeric word := by
  intro word member
  obtain none_left | tail := take_rest value ws
  · simp [none_left] at member
  · rw [tail] at member
    exact numeric word (List.mem_of_mem_tail member)

theorem requestSizes_words {req first : List Byte} {ws : List (List Byte)}
    (split : words req = first :: ws) (numeric : ∀ word ∈ ws, Numeric word) :
    ((requestSizes req).1, (requestSizes req).2.1, (requestSizes req).2.2.1) = sizesIn ws := by
  have begins : Reads { rest := req, good := true } (first :: ws) := by simpa [Reads] using split
  have command := (word_reads begins).2
  have M := int_take 0 numeric command
  have numericM := numeric_rest 0 numeric
  have K := int_take 0 numericM M.2
  have numericK := numeric_rest 0 numericM
  have N := int_take 0 numericK K.2
  simp only [requestSizes, sizesIn, M.1, K.1, N.1]

variable {ws rest : List (List Byte)} {first second third : List Byte} {M K N : Int}

theorem sizesIn_literals (literalM : literal first = some M) (literalK : literal second = some K)
    (literalN : literal third = some N) (positiveM : 0 < M) (positiveK : 0 < K) (positiveN : 0 < N)
    (fitsM : M < 2 ^ 31) (fitsK : K < 2 ^ 31) (fitsN : N < 2 ^ 31) :
    sizesIn (first :: second :: third :: rest) = (M, K, N) := by
  simp only [sizesIn, take_literal literalM (by omega) fitsM,
    take_literal literalK (by omega) fitsK, take_literal literalN (by omega) fitsN]

theorem sizesIn_short (short : ws.length < 3) : (sizesIn ws).2.2 = 0 := by
  have once := take_length 0 ws
  have twice := take_length 0 (take 0 ws).2
  have nothing : (take 0 (take 0 ws).2).2 = [] := List.length_eq_zero_iff.mp (by omega)
  change (take 0 (take 0 (take 0 ws).2).2).1 = 0
  rw [nothing]
  rfl

-- What is read of the three sizes where the text may end within the third one.
theorem sizesIn_third (rest : List (List Byte)) (literalM : literal first = some M)
    (literalK : literal second = some K) (literalN : literal third = some N) (positiveM : 0 < M)
    (positiveK : 0 < K) (positiveN : 0 < N) {cut : List Byte} (prefixed : cut <+: third)
    (nonempty : cut ≠ []) :
    0 ≤ (sizesIn (first :: second :: cut :: rest)).2.2 ∧
      (sizesIn (first :: second :: cut :: rest) = (M, K, N) →
        cut = third ∧ M < 2 ^ 31 ∧ K < 2 ^ 31 ∧ N < 2 ^ 31) := by
  have nothing : ∀ {ws : List (List Byte)}, ws = [] → (take 0 ws).1 = 0 ∧ (take 0 ws).2 = [] := by
    rintro ws rfl
    exact ⟨rfl, rfl⟩
  have zero (third_zero : (sizesIn (first :: second :: cut :: rest)).2.2 = 0) :
      0 ≤ (sizesIn (first :: second :: cut :: rest)).2.2 ∧
        (sizesIn (first :: second :: cut :: rest) = (M, K, N) →
          cut = third ∧ M < 2 ^ 31 ∧ K < 2 ^ 31 ∧ N < 2 ^ 31) := by
    refine ⟨third_zero.symm ▸ le_rfl, fun same => ?_⟩
    rw [same] at third_zero
    exact absurd third_zero positiveN.ne'
  by_cases readM : (take 0 (first :: second :: cut :: rest)).2 = []
  · exact zero (nothing (nothing readM).2).1
  obtain ⟨sameM, fitsM⟩ := take_fits literalM positiveM readM
  by_cases readK : (take 0 (second :: cut :: rest)).2 = []
  · refine zero ?_
    simp only [sizesIn, sameM]
    exact (nothing readK).1
  obtain ⟨sameK, fitsK⟩ := take_fits literalK positiveK readK
  obtain ⟨nonnegative, whole⟩ := take_prefix 0 rest literalN positiveN prefixed nonempty
  simp only [sizesIn, sameM, sameK, Prod.mk.injEq, true_and]
  exact ⟨nonnegative, fun same => ⟨(whole same).1, fitsM, fitsK, (whole same).2⟩⟩

theorem sizesIn_cut (cut : Cut ws (first :: second :: third :: rest))
    (nonempty : ∀ word ∈ ws, word ≠ []) (literalM : literal first = some M)
    (literalK : literal second = some K) (literalN : literal third = some N)
    (positiveM : 0 < M) (positiveK : 0 < K) (positiveN : 0 < N) :
    0 ≤ (sizesIn ws).2.2 ∧
      (sizesIn ws = (M, K, N) ↔ ws.take 3 = [first, second, third] ∧
        M < 2 ^ 31 ∧ K < 2 ^ 31 ∧ N < 2 ^ 31) := by
  have back (whole : ws.take 3 = [first, second, third])
      (fits : M < 2 ^ 31 ∧ K < 2 ^ 31 ∧ N < 2 ^ 31) : sizesIn ws = (M, K, N) := by
    rw [← List.take_append_drop 3 ws, whole]
    exact sizesIn_literals literalM literalK literalN positiveM positiveK positiveN fits.1 fits.2.1
      fits.2.2
  obtain short | long := Nat.lt_or_ge ws.length 3
  · have zero := sizesIn_short short
    refine ⟨zero.symm ▸ le_rfl, fun same => ?_, fun ⟨whole, fits⟩ => back whole fits⟩
    rw [same] at zero
    exact absurd zero positiveN.ne'
  · obtain ⟨a, b, c, others, rfl⟩ : ∃ a b c others, ws = a :: b :: c :: others := by
      match ws, long with
      | a :: b :: c :: others, _ => exact ⟨a, b, c, others, rfl⟩
    obtain ⟨rfl, rfl, cut⟩ := cut
    have prefixed : c <+: third := by
      cases others with
      | nil => exact cut
      | cons _ _ => exact cut.1 ▸ List.prefix_rfl
    obtain ⟨nonnegative, whole⟩ := sizesIn_third others literalM literalK literalN
      positiveM positiveK positiveN prefixed (nonempty c (by simp))
    refine ⟨nonnegative, fun same => ?_, fun ⟨whole, fits⟩ => back whole fits⟩
    obtain ⟨rfl, fits⟩ := whole same
    exact ⟨rfl, fits⟩

theorem words_of_generate {req : List Byte} (begins : generate <+: req) :
    ∃ command ws, words req = command :: ws ∧ generate <+: command := by
  obtain ⟨rest, rfl⟩ := begins
  have solid : ∀ b ∈ generate, (!isSpace b) = true := by decide
  refine ⟨_, _, words_solid (by simp [generate, ascii]) ?_, ?_⟩
  · intro b same
    obtain rfl : 103#8 = b := by simpa [generate, ascii] using same
    decide
  · rw [List.takeWhile_append_of_pos solid]
    exact List.prefix_append _ _

theorem words_received {req sent : List Byte} {whole : List (List Byte)} (begins : generate <+: req)
    (prefixed : req <+: sent) (split : words sent = generate :: whole) :
    ∃ ws, words req = generate :: ws ∧ Cut ws whole := by
  obtain ⟨command, ws, parts, longer⟩ := words_of_generate begins
  have cut := words_cut prefixed
  rw [parts, split] at cut
  cases ws with
  | nil =>
      have same : command = generate := longer.eq_of_length_le cut.length_le |>.symm
      exact ⟨[], same ▸ parts, trivial⟩
  | cons next ws => exact ⟨next :: ws, cut.1 ▸ parts, cut.2⟩

theorem requestSizes_received {req sent : List Byte} (asks : AsksFor sent M K N)
    (begins : generate <+: req) (prefixed : req <+: sent) :
    0 ≤ (requestSizes req).2.2.1 ∧
      (((requestSizes req).1, (requestSizes req).2.1, (requestSizes req).2.2.1) = (M, K, N) ↔
        (words req).take 4 = (words sent).take 4 ∧ M < 2 ^ 31 ∧ K < 2 ^ 31 ∧ N < 2 ^ 31) := by
  obtain ⟨positiveM, positiveK, positiveN, first, second, third, rest, split, literalM, literalK,
    literalN, others⟩ := asks
  obtain ⟨ws, parts, cut⟩ := words_received begins prefixed split
  have nonempty : ∀ word ∈ ws, word ≠ [] := by
    intro word member
    refine wordsFrom_nonempty [] req word ?_
    rw [← words, parts]
    exact List.mem_cons_of_mem _ member
  have literals : ∀ word ∈ first :: second :: third :: rest, (literal word).isSome := by
    obtain rfl | ⟨last, backendChoice, rfl, literalLast⟩ := others
    · simp [literalM, literalK, literalN]
    · simp [literalM, literalK, literalN, literalLast]
  have sizes := requestSizes_words parts (cut_numeric cut literals nonempty)
  obtain ⟨nonnegative, exactly⟩ := sizesIn_cut cut nonempty literalM literalK literalN positiveM
    positiveK positiveN
  rw [sizes, exactly, parts, split]
  refine ⟨?_, by simp⟩
  rw [← sizes] at nonnegative
  exact nonnegative

end Sizes

section Compiling

variable {outcome : CompileOutcome} {M K N : Int}

theorem saves_of_saveBinary {saved : List ServerEvent}
    (same : saveBinary outcome M K N = some saved) :
    saved = [] ∨ ∃ binary, outcome.contextBinary (matMulGraph M K N) = some binary ∧
      saved = [.saves (binFilename M K N) (binary.take outcome.written)] := by
  unfold saveBinary at same
  split at same
  next => exact Or.inl (Option.some.inj same).symm
  next => exact Or.inl (Option.some.inj same).symm
  next =>
    split at same
    next => cases same
    next =>
      split at same
      next => exact Or.inl (Option.some.inj same).symm
      next binary found =>
        split at same
        next => exact Or.inr ⟨binary, found, (Option.some.inj same).symm⟩
        next => exact Or.inl (Option.some.inj same).symm

theorem forall_handle {P : ServerHandle → Prop} :
    (∀ handle, P handle) ↔ P .backend ∧ P .device ∧ P .context := by
  constructor
  · exact fun all => ⟨all _, all _, all _⟩
  · rintro ⟨backend, device, context⟩ handle
    cases handle
    · exact backend
    · exact device
    · exact context

theorem freedOnce_before_context :
    FreedOnce (outcome.created ++ outcome.freed) ↔
      (outcome.deviceCreated → outcome.deviceFree) := by
  simp only [FreedOnce, forall_handle, CompileOutcome.created, CompileOutcome.freed]
  cases outcome.deviceCreated <;> cases outcome.deviceFree <;> decide

theorem freedOnce_with_context (outcome : CompileOutcome) {saved : List ServerEvent}
    (only : saved = [] ∨ ∃ file binary, saved = [.saves file binary]) :
    FreedOnce (outcome.created ++ [.creates .context] ++ saved ++
        .frees .context :: outcome.freed) ↔
      (outcome.deviceCreated → outcome.deviceFree) := by
  simp only [FreedOnce, forall_handle, CompileOutcome.created, CompileOutcome.freed]
  obtain rfl | ⟨file, binary, rfl⟩ := only
  · cases outcome.deviceCreated <;> cases outcome.deviceFree <;> decide
  · cases outcome.deviceCreated <;> cases outcome.deviceFree <;> simp

section Saving

open Words

theorem binFilename_chars (M K N : Int) : (binFilename M K N).toList = "matmuls/matmul_".toList ++
    (numeral M ++ 'x' :: (numeral K ++ '_' :: (numeral K ++ 'x' ::
      (numeral N ++ ".bin".toList)))) := by
  have texts : "x".toList = ['x'] ∧ "_".toList = ['_'] := by decide
  unfold binFilename
  simp only [String.toList_append, List.append_assoc]
  change _ ++ (numeral M ++ ("x".toList ++ (numeral K ++ ("_".toList ++ (numeral K ++
    ("x".toList ++ (numeral N ++ _))))))) = _
  rw [texts.1, texts.2]
  rfl

theorem binFilename_injective {M K N m k n : Int} (same : binFilename M K N = binFilename m k n) :
    M = m ∧ K = k ∧ N = n := by
  have chars := congrArg String.toList same
  rw [binFilename_chars, binFilename_chars] at chars
  have x := @separator_notMem_numeral 'x' (by decide) (by decide)
  have line := @separator_notMem_numeral '_' (by decide) (by decide)
  have dot := @separator_notMem_numeral '.' (by decide) (by decide)
  obtain ⟨rows, rest⟩ := Keys.split_first (x M) (x m) (List.append_cancel_left chars)
  obtain ⟨inner, rest⟩ := Keys.split_first (line K) (line k) rest
  obtain ⟨_, rest⟩ := Keys.split_first (x K) (x k) rest
  obtain ⟨columns, _⟩ := Keys.split_first (dot N) (dot n) rest
  exact ⟨numeral_injective rows, numeral_injective inner, numeral_injective columns⟩

end Saving

variable {m k n : Int}

def CompileOutcome.Holds (outcome : CompileOutcome) (M K N : Int) (events : List ServerEvent) :
    Prop :=
  ∃ binary, outcome.contextBinary (matMulGraph M K N) = some binary ∧
    .saves (binFilename M K N) binary ∈ events

def CompileOutcome.Saves (outcome : CompileOutcome) (M K N : Int) : Prop :=
  (∃ size, outcome.binarySize = some (size + 1)) ∧ outcome.bufferAllocated ∧ outcome.fileOpened ∧
    ∃ binary, outcome.contextBinary (matMulGraph M K N) = some binary ∧
      binary.length ≤ outcome.written

theorem saveBinary_holds (outcome : CompileOutcome) (M K N m k n : Int) :
    (∃ saved, saveBinary outcome m k n = some saved ∧ outcome.Holds M K N saved) ↔
      outcome.Saves M K N ∧ (m, k, n) = (M, K, N) := by
  constructor
  · rintro ⟨saved, same, binary, found, member⟩
    unfold saveBinary at same
    split at same
    next => simp [← Option.some.inj same] at member
    next => simp [← Option.some.inj same] at member
    next size sized =>
      split at same
      next => cases same
      next allocated =>
        split at same
        next => simp [← Option.some.inj same] at member
        next given from_graph =>
          split at same
          next opened =>
            rw [← Option.some.inj same] at member
            obtain ⟨named, rfl⟩ : binFilename M K N = binFilename m k n ∧
                binary = given.take outcome.written := by simpa using member
            obtain ⟨rfl, rfl, rfl⟩ := binFilename_injective named
            rw [from_graph] at found
            have whole := congrArg List.length (Option.some.inj found)
            rw [List.length_take] at whole
            refine ⟨⟨⟨size, sized⟩, by simpa using allocated, opened, given, from_graph, ?_⟩, rfl⟩
            omega
          next => simp [← Option.some.inj same] at member
  · rintro ⟨⟨⟨size, sized⟩, allocated, opened, binary, found, fits⟩, same⟩
    cases same
    refine ⟨[.saves (binFilename M K N) binary], ?_, binary, found, List.mem_singleton_self _⟩
    simp [saveBinary, sized, allocated, opened, found, List.take_of_length_le fits]

theorem holds_between (outcome : CompileOutcome) (M K N : Int) (saved : List ServerEvent) :
    outcome.Holds M K N (outcome.created ++ [.creates .context] ++ saved ++
      .frees .context :: outcome.freed) ↔ outcome.Holds M K N saved := by
  unfold CompileOutcome.Holds CompileOutcome.created CompileOutcome.freed
  cases outcome.deviceCreated <;> cases outcome.deviceFree <;> simp

-- What is asked of a compilation that is to be answered truthfully.
structure Compiled (outcome : CompileOutcome) (M K N : Int)
    (result : Option Bool × List ServerEvent) : Prop where
  returns : result.1 ≠ none
  freed : FreedOnce result.2
  truthful : result.1 = some true → outcome.Holds M K N result.2

def CompileOutcome.Serves (outcome : CompileOutcome) (rest : Prop) : Prop :=
  outcome.backendCreated → (outcome.deviceCreated → outcome.deviceFree) ∧
    (outcome.contextCreated → outcome.graphCreated → outcome.biasAllocated ∧
      (outcome.nodeAdded → outcome.graphFinalized → rest))

theorem compiled_of_failure {events : List ServerEvent} {P : Prop} (freed : FreedOnce events ↔ P) :
    Compiled outcome M K N (some false, events) ↔ P := by
  constructor
  · exact fun compiled => freed.mp compiled.freed
  · exact fun met => ⟨by simp, freed.mpr met, by simp⟩

theorem compileMatMulGraph_iff (nonnegative : 0 ≤ n) :
    Compiled outcome M K N (compileMatMulGraph outcome m k n) ↔
      outcome.Serves (outcome.Saves M K N ∧ (m, k, n) = (M, K, N)) := by
  have sized : decide (n < 0) = false := by simpa using nonnegative
  have after := freedOnce_with_context outcome (Or.inl rfl)
  simp only [List.append_nil] at after
  rw [compileMatMulGraph, CompileOutcome.Serves]
  cases backend : outcome.backendCreated
  case false => simpa using compiled_of_failure (P := True) (by simp [FreedOnce])
  cases context : outcome.contextCreated
  case false => simpa using compiled_of_failure freedOnce_before_context
  cases graph : outcome.graphCreated
  case false => simpa using compiled_of_failure after
  cases bias : outcome.biasAllocated
  case false =>
    have throws : ¬ Compiled outcome M K N (none, outcome.created ++ [.creates .context]) :=
      fun compiled => compiled.returns rfl
    simpa [sized] using throws
  cases node : outcome.nodeAdded
  case false => simpa [sized] using compiled_of_failure after
  cases final : outcome.graphFinalized
  case false => simpa [sized] using compiled_of_failure after
  have holds := saveBinary_holds outcome M K N m k n
  simp only [← holds, Bool.not_true, Bool.false_eq_true, if_false, sized, Bool.or_self,
    true_implies, true_and]
  cases same : saveBinary outcome m k n with
  | none =>
      constructor
      · exact fun compiled => absurd rfl compiled.returns
      · rintro ⟨-, _, none_saved, -⟩
        cases none_saved
  | some saved =>
      have only : saved = [] ∨ ∃ file binary, saved = [.saves file binary] :=
        (saves_of_saveBinary same).imp_right fun ⟨binary, _, is_saved⟩ => ⟨_, _, is_saved⟩
      have freed := freedOnce_with_context outcome only
      have between := holds_between outcome M K N saved
      constructor
      · intro compiled
        exact ⟨freed.mp compiled.freed, saved, rfl, between.mp (compiled.truthful rfl)⟩
      · rintro ⟨device, _, is_saved, whole⟩
        cases is_saved
        exact ⟨by simp, freed.mpr device, fun _ => between.mpr whole⟩

end Compiling

theorem asksFor_unique {sent : List Byte} {M K N m k n : Int} (asks : AsksFor sent M K N)
    (also : AsksFor sent m k n) : (m, k, n) = (M, K, N) := by
  obtain ⟨-, -, -, _, _, _, _, split, literalM, literalK, literalN, -⟩ := asks
  obtain ⟨-, -, -, _, _, _, _, again, literal_m, literal_k, literal_n, -⟩ := also
  rw [split] at again
  simp only [List.cons.injEq, true_and] at again
  obtain ⟨rfl, rfl, rfl, rfl⟩ := again
  rw [literalM] at literal_m
  rw [literalK] at literal_k
  rw [literalN] at literal_n
  cases literal_m
  cases literal_k
  cases literal_n
  rfl

theorem prefix_received (sent : List Byte) (arrived : Nat) : received sent arrived <+: sent :=
  (List.takeWhile_prefix _).trans (List.take_prefix _ _)

-- The first four words have arrived whole, and each size is an int.
def ReadWhole (sent : List Byte) (arrived : Nat) (M K N : Int) : Prop :=
  (words (received sent arrived)).take 4 = (words sent).take 4 ∧
    M < 2 ^ 31 ∧ K < 2 ^ 31 ∧ N < 2 ^ 31

-- When one iteration of the accept loop keeps what is asked of it.
theorem acceptIteration_correct_iff (sent : List Byte) (arrived : Nat) (outcome : CompileOutcome) :
    (acceptIteration sent arrived outcome).Correct sent outcome ↔
      (generate <+: received sent arrived → ∃ M K N, AsksFor sent M K N ∧
        outcome.Serves (outcome.Saves M K N ∧ ReadWhole sent arrived M K N)) := by
  by_cases begins : generate <+: received sent arrived
  · have started : generate.isPrefixOf (received sent arrived) = true :=
      List.isPrefixOf_iff_prefix.mpr begins
    -- The sizes that the code reads, and those that the client asks for, where it asks.
    have reads {M K N : Int} (asks : AsksFor sent M K N) :=
      requestSizes_received asks begins (prefix_received sent arrived)
    unfold acceptIteration
    rw [if_pos started]
    generalize requestSizes (received sent arrived) = sizes at reads
    obtain ⟨m, k, n, backendChoice⟩ := sizes
    have compiles {M K N : Int} (asks : AsksFor sent M K N) :
        Compiled outcome M K N (compileMatMulGraph outcome m k n) ↔
          outcome.Serves (outcome.Saves M K N ∧ ReadWhole sent arrived M K N) := by
      rw [compileMatMulGraph_iff (reads asks).1, (reads asks).2]
      rfl
    simp only [begins, true_implies]
    generalize compileMatMulGraph outcome m k n = result at compiles
    obtain ⟨_ | success, events⟩ := result
    · constructor
      · intro correct
        cases correct.survives
      · rintro ⟨M, K, N, asks, serves⟩
        exact absurd rfl ((compiles asks).mpr serves).returns
    · constructor
      · intro correct
        obtain ⟨M, K, N, asks⟩ := correct.asked (by simp)
        refine ⟨M, K, N, asks, (compiles asks).mp ⟨by simp, correct.freed, fun ok => ?_⟩⟩
        cases ok
        obtain ⟨_, _, _, also, holds⟩ := correct.truthful rfl
        cases asksFor_unique asks also
        exact holds
      · rintro ⟨M, K, N, asks, serves⟩
        have compiled := (compiles asks).mpr serves
        refine ⟨rfl, fun _ => ⟨M, K, N, asks⟩, fun ok => ⟨M, K, N, asks, ?_⟩, compiled.freed⟩
        cases success with
        | true => exact compiled.truthful rfl
        | false => cases ok
  · have ignored : acceptIteration sent arrived outcome =
        { compiled := none, events := [], reply := none, closed := true } := by
      simp [acceptIteration, List.isPrefixOf_iff_prefix, begins]
    rw [ignored]
    refine ⟨fun _ started => absurd started begins, fun _ => ⟨rfl, by simp, by simp, ?_⟩⟩
    simp [FreedOnce]

def willingOutcome : CompileOutcome :=
  { backendCreated := true, deviceCreated := true, deviceFree := true, contextCreated := true
    graphCreated := true, biasAllocated := true, nodeAdded := true, graphFinalized := true
    binarySize := some 1, bufferAllocated := true, contextBinary := fun _ => some [0]
    fileOpened := true, written := 1 }

-- Every call would succeed, but the vector of -1 elements ends the server.
theorem negative_request_ends_server :
    ¬ (acceptIteration (ascii "generate 4 4 -1\n") 16 willingOutcome).Correct
      (ascii "generate 4 4 -1\n") willingOutcome := by
  intro correct
  have survives := correct.survives
  revert survives
  decide

end NpuMatmul
