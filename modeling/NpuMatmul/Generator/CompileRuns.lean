import NpuMatmul.Generator.ServerSpec
import NpuMatmul.Shared.TableWrites

set_option autoImplicit false

namespace NpuMatmul.CompileServer

open TableWrites Extraction

abbrev Directory := String → Option (List Byte)

structure Arrival where
  sent : List Byte
  arrived : Nat
  outcome : CompileOutcome

-- What is created and not freed: a device, by a library that has no deviceFree.
def stranded (outcome : CompileOutcome) (handle : ServerHandle) : Nat :=
  if handle = .device ∧ outcome.deviceCreated ∧ ¬ outcome.deviceFree then 1 else 0

def Balanced (outcome : CompileOutcome) (events : List ServerEvent) : Prop :=
  ∀ handle, events.count (.creates handle) =
    events.count (.frees handle) + stranded outcome handle

namespace Arrival

def iteration (a : Arrival) : Iteration := acceptIteration a.sent a.arrived a.outcome

-- An exception leaves the accept loop: a vector is asked for more than it can have.
def Throws (a : Arrival) : Prop :=
  generate <+: received a.sent a.arrived ∧ a.outcome.backendCreated ∧ a.outcome.contextCreated ∧
    a.outcome.graphCreated ∧
      ((requestSizes (received a.sent a.arrived)).2.2.1 < 0 ∨ ¬ a.outcome.biasAllocated ∨
        (a.outcome.nodeAdded ∧ a.outcome.graphFinalized ∧
          (∃ size, a.outcome.binarySize = some (size + 1)) ∧ ¬ a.outcome.bufferAllocated))

def strands (a : Arrival) (handle : ServerHandle) : Nat :=
  if generate.isPrefixOf (received a.sent a.arrived) && a.outcome.backendCreated then
    stranded a.outcome handle
  else 0

end Arrival

def handled : List Arrival → List Arrival
  | [] => []
  | arrival :: rest => arrival :: if arrival.iteration.closed then handled rest else []

def trace (arrivals : List Arrival) : List ServerEvent :=
  (handled arrivals).flatMap fun arrival => arrival.iteration.events

def written : ServerEvent → Option (String × List Byte)
  | .saves filename bytes => some (filename, bytes)
  | _ => none

def directory (files : Directory) (arrivals : List Arrival) : Directory :=
  (trace arrivals).foldl (fun files event => LastWrites.record files (written event)) files

section Compilation

variable {outcome : CompileOutcome} {M K N : Int}

theorem saveBinary_throws :
    saveBinary outcome M K N = none ↔
      (∃ size, outcome.binarySize = some (size + 1)) ∧ ¬ outcome.bufferAllocated := by
  unfold saveBinary
  split
  next absent => simp [absent]
  next empty => simp [empty]
  next size sized =>
    cases allocated : outcome.bufferAllocated with
    | false => simp [sized]
    | true =>
        simp only [sized, Bool.not_true, Bool.false_eq_true, if_false, not_true, and_false, iff_false]
        split
        · simp
        · split <;> simp

theorem compile_throws :
    (compileMatMulGraph outcome M K N).1 = none ↔
      outcome.backendCreated ∧ outcome.contextCreated ∧ outcome.graphCreated ∧
        (N < 0 ∨ ¬ outcome.biasAllocated ∨ (outcome.nodeAdded ∧ outcome.graphFinalized ∧
          (∃ size, outcome.binarySize = some (size + 1)) ∧ ¬ outcome.bufferAllocated)) := by
  have saves : saveBinary outcome M K N = none ↔ _ := saveBinary_throws
  rw [compileMatMulGraph]
  cases outcome.backendCreated
  case false => simp
  cases outcome.contextCreated
  case false => simp
  cases outcome.graphCreated
  case false => simp
  by_cases negative : N < 0
  · simp [negative]
  cases outcome.biasAllocated
  case false => simp
  cases outcome.nodeAdded
  case false => simp [negative]
  cases outcome.graphFinalized
  case false => simp [negative]
  cases saved : saveBinary outcome M K N with
  | none => simpa [negative] using saves.mp saved
  | some events =>
      have returns := saves.not.mp (by simp [saved])
      simpa [negative] using returns

theorem balanced_before_context : Balanced outcome (outcome.created ++ outcome.freed) := by
  intro handle
  simp only [CompileOutcome.created, CompileOutcome.freed, stranded]
  cases outcome.deviceCreated <;> cases outcome.deviceFree <;> cases handle <;> decide

theorem balanced_with_context {saved : List ServerEvent}
    (only : saved = [] ∨ ∃ file bytes, saved = [.saves file bytes]) :
    Balanced outcome (outcome.created ++ [.creates .context] ++ saved ++
      .frees .context :: outcome.freed) := by
  intro handle
  simp only [CompileOutcome.created, CompileOutcome.freed, stranded]
  obtain rfl | ⟨file, bytes, rfl⟩ := only
  · cases outcome.deviceCreated <;> cases outcome.deviceFree <;> cases handle <;> decide
  · cases outcome.deviceCreated <;> cases outcome.deviceFree <;> cases handle <;>
      simp

theorem saveBinary_only {saved : List ServerEvent} (same : saveBinary outcome M K N = some saved) :
    saved = [] ∨ ∃ file bytes, saved = [.saves file bytes] :=
  (saves_of_saveBinary same).imp_right fun ⟨_, _, is_saved⟩ => ⟨_, _, is_saved⟩

theorem compile_balanced (backend : outcome.backendCreated = true)
    (returns : (compileMatMulGraph outcome M K N).1 ≠ none) :
    Balanced outcome (compileMatMulGraph outcome M K N).2 := by
  have after : Balanced outcome (outcome.created ++ [.creates .context] ++ [] ++
      .frees .context :: outcome.freed) := balanced_with_context (.inl rfl)
  rw [List.append_nil] at after
  revert returns
  rw [compileMatMulGraph]
  simp only [backend, Bool.not_true, Bool.false_eq_true, if_false]
  cases outcome.contextCreated
  case false => exact fun _ => balanced_before_context
  cases outcome.graphCreated
  case false => exact fun _ => after
  cases (decide (N < 0) || !outcome.biasAllocated)
  case true => exact fun returns => absurd rfl returns
  cases outcome.nodeAdded
  case false => exact fun _ => after
  cases outcome.graphFinalized
  case false => exact fun _ => after
  cases saved : saveBinary outcome M K N with
  | none => exact fun returns => absurd rfl returns
  | some events => exact fun _ => balanced_with_context (saveBinary_only saved)

theorem compile_saves {filename : String} {bytes : List Byte}
    (member : .saves filename bytes ∈ (compileMatMulGraph outcome M K N).2) :
    filename = binFilename M K N ∧ ∃ binary, outcome.contextBinary (matMulGraph M K N) = some binary ∧
      bytes = binary.take outcome.written := by
  have apart : ServerEvent.saves filename bytes ∉ outcome.created ++ [.creates .context] ∧
      ServerEvent.saves filename bytes ∉ .frees .context :: outcome.freed ∧
      ServerEvent.saves filename bytes ∉ outcome.created ++ outcome.freed := by
    simp only [CompileOutcome.created, CompileOutcome.freed]
    cases outcome.deviceCreated <;> cases outcome.deviceFree <;> simp
  have whole : ServerEvent.saves filename bytes ∉
      outcome.created ++ [.creates .context] ++ .frees .context :: outcome.freed := by
    simp only [List.mem_append, not_or] at apart ⊢
    exact ⟨apart.1, apart.2.1⟩
  revert member
  rw [compileMatMulGraph]
  cases outcome.backendCreated
  case false => simp
  cases outcome.contextCreated
  case false => exact fun member => absurd member apart.2.2
  cases outcome.graphCreated
  case false => exact fun member => absurd member whole
  cases (decide (N < 0) || !outcome.biasAllocated)
  case true => exact fun member => absurd member apart.1
  cases outcome.nodeAdded
  case false => exact fun member => absurd member whole
  cases outcome.graphFinalized
  case false => exact fun member => absurd member whole
  cases saved : saveBinary outcome M K N with
  | none => exact fun member => absurd member apart.1
  | some events =>
      intro member
      have inner : ServerEvent.saves filename bytes ∈ events := by
        obtain early | late := List.mem_append.mp member
        · exact (List.mem_append.mp early).resolve_left apart.1
        · exact absurd late apart.2.1
      obtain rfl | ⟨binary, found, rfl⟩ := saves_of_saveBinary saved
      · cases inner
      · obtain ⟨rfl, rfl⟩ : filename = binFilename M K N ∧ bytes = binary.take outcome.written := by
          simpa using inner
        exact ⟨rfl, binary, found, rfl⟩

end Compilation

section Iterations

variable (a : Arrival)

theorem iteration_ignored (ignored : ¬ generate <+: received a.sent a.arrived) :
    a.iteration = { compiled := none, events := [], reply := none, closed := true } := by
  simp [Arrival.iteration, acceptIteration, List.isPrefixOf_iff_prefix, ignored]

theorem iteration_compiles (begins : generate <+: received a.sent a.arrived) :
    ∃ M K N, N = (requestSizes (received a.sent a.arrived)).2.2.1 ∧
      a.iteration.compiled = some (M, K, N) ∧
        a.iteration.events = (compileMatMulGraph a.outcome M K N).2 ∧
          (a.iteration.closed = false ↔ (compileMatMulGraph a.outcome M K N).1 = none) := by
  have started : generate.isPrefixOf (received a.sent a.arrived) = true :=
    List.isPrefixOf_iff_prefix.mpr begins
  rw [Arrival.iteration, acceptIteration, if_pos started]
  generalize requestSizes (received a.sent a.arrived) = sizes
  obtain ⟨M, K, N, backendChoice⟩ := sizes
  refine ⟨M, K, N, rfl, ?_⟩
  dsimp only
  generalize compileMatMulGraph a.outcome M K N = result
  obtain ⟨_ | success, events⟩ := result
  · exact ⟨rfl, rfl, by simp⟩
  · exact ⟨rfl, rfl, by simp⟩

theorem iteration_throws : a.iteration.closed = false ↔ a.Throws := by
  by_cases begins : generate <+: received a.sent a.arrived
  · obtain ⟨M, K, N, rfl, _, _, closed⟩ := iteration_compiles a begins
    rw [closed, compile_throws, Arrival.Throws]
    simp only [begins, true_and]
  · rw [iteration_ignored a begins]
    simp [Arrival.Throws, begins]

theorem iteration_balanced (stays : ¬ a.Throws) (handle : ServerHandle) :
    a.iteration.events.count (.creates handle) =
      a.iteration.events.count (.frees handle) + a.strands handle := by
  by_cases begins : generate <+: received a.sent a.arrived
  · have started : generate.isPrefixOf (received a.sent a.arrived) = true :=
      List.isPrefixOf_iff_prefix.mpr begins
    obtain ⟨M, K, N, _, _, events, closed⟩ := iteration_compiles a begins
    rw [← iteration_throws, closed] at stays
    rw [events, Arrival.strands, started, Bool.true_and]
    cases backend : a.outcome.backendCreated with
    | true => exact compile_balanced backend stays handle
    | false => simp [compileMatMulGraph, backend]
  · simp [iteration_ignored a begins, Arrival.strands, List.isPrefixOf_iff_prefix, begins]

theorem iteration_saves {filename : String} {bytes : List Byte}
    (member : .saves filename bytes ∈ a.iteration.events) :
    ∃ M K N, a.iteration.compiled = some (M, K, N) ∧ filename = binFilename M K N ∧
      ∃ binary, a.outcome.contextBinary (matMulGraph M K N) = some binary ∧
        bytes = binary.take a.outcome.written := by
  by_cases begins : generate <+: received a.sent a.arrived
  · obtain ⟨M, K, N, _, compiled, events, _⟩ := iteration_compiles a begins
    rw [events] at member
    exact ⟨M, K, N, compiled, compile_saves member⟩
  · rw [iteration_ignored a begins] at member
    cases member

end Iterations

section Names

open Words

-- The compiler's files end in n, and the clients' in e.
theorem binFilename_last (M K N : Int) : (binFilename M K N).toList.getLast? = some 'n' := by
  rw [binFilename_chars]
  simp [List.getLast?_append, List.getLast?_cons]

theorem modelFilename_last (M K N : Nat) (backendChoice : Int) :
    (modelFilename M K N backendChoice).toList.getLast? = some 'e' := by
  rw [← filename_modelFilename, filename_chars, shapeChars]
  simp [List.getLast?_append, List.getLast?_cons]

theorem binFilename_ne_modelFilename (M K N : Int) (m k n : Nat) (backendChoice : Int) :
    modelFilename m k n backendChoice ≠ binFilename M K N := by
  intro same
  have last := modelFilename_last m k n backendChoice
  rw [same, binFilename_last] at last
  revert last
  decide

end Names

structure CompileRun (files : Directory) (arrivals : List Arrival) : Prop where
  -- A file holds what was saved last under its name, or else what it held before.
  last : ∀ name, (∃ earlier bytes later, trace arrivals = earlier ++ .saves name bytes :: later ∧
      (∀ other, .saves name other ∉ later) ∧ directory files arrivals name = some bytes) ∨
    ((∀ bytes, .saves name bytes ∉ trace arrivals) ∧ directory files arrivals name = files name)
  saved : ∀ name bytes, .saves name bytes ∈ trace arrivals → ∃ a ∈ arrivals, ∃ M K N,
    a.iteration.compiled = some (M, K, N) ∧ name = binFilename M K N ∧
      ∃ binary, a.outcome.contextBinary (matMulGraph M K N) = some binary ∧
        bytes = binary.take a.outcome.written
  models : ∀ M K N backendChoice, directory files arrivals (modelFilename M K N backendChoice) =
    files (modelFilename M K N backendChoice)
  survives : (∀ a ∈ handled arrivals, a.iteration.closed = true) ↔ ∀ a ∈ arrivals, ¬ a.Throws
  balanced : (∀ a ∈ arrivals, ¬ a.Throws) → ∀ handle,
    (trace arrivals).count (.creates handle) =
      (trace arrivals).count (.frees handle) + (arrivals.map fun a => a.strands handle).sum

section Runs

variable {files : Directory} {arrivals : List Arrival}

theorem handled_subset : handled arrivals ⊆ arrivals := by
  induction arrivals with
  | nil => exact List.Subset.refl _
  | cons a rest ih =>
      rw [handled]
      split
      · exact List.cons_subset_cons a ih
      · exact List.cons_subset_cons a (List.nil_subset _)

theorem handled_all (stays : ∀ a ∈ arrivals, ¬ a.Throws) : handled arrivals = arrivals := by
  induction arrivals with
  | nil => rfl
  | cons a rest ih =>
      have closed : a.iteration.closed = true := by
        have here := stays a List.mem_cons_self
        rw [← iteration_throws, Bool.not_eq_false] at here
        exact here
      rw [handled, if_pos closed, ih fun b member => stays b (List.mem_cons_of_mem a member)]

theorem survives_iff :
    (∀ a ∈ handled arrivals, a.iteration.closed = true) ↔ ∀ a ∈ arrivals, ¬ a.Throws := by
  constructor
  · induction arrivals with
    | nil => simp
    | cons a rest ih =>
        intro closed
        have here := closed a List.mem_cons_self
        rw [handled, if_pos here] at closed
        have first : ¬ a.Throws := by
          rw [← iteration_throws, here]
          simp
        exact List.forall_mem_cons.mpr
          ⟨first, ih fun b member => closed b (List.mem_cons_of_mem a member)⟩
  · intro stays a member
    have here := stays a (handled_subset member)
    rw [← iteration_throws, Bool.not_eq_false] at here
    exact here

theorem trace_balanced (stays : ∀ a ∈ arrivals, ¬ a.Throws) (handle : ServerHandle) :
    (trace arrivals).count (.creates handle) =
      (trace arrivals).count (.frees handle) + (arrivals.map fun a => a.strands handle).sum := by
  rw [trace, handled_all stays]
  induction arrivals with
  | nil => rfl
  | cons a rest ih =>
      have here := iteration_balanced a (stays a List.mem_cons_self) handle
      have others := ih fun b member => stays b (List.mem_cons_of_mem a member)
      simp only [List.flatMap_cons, List.count_append, List.map_cons, List.sum_cons, here, others]
      omega

theorem trace_saves {name : String} {bytes : List Byte} (member : .saves name bytes ∈ trace arrivals) :
    ∃ a ∈ arrivals, ∃ M K N, a.iteration.compiled = some (M, K, N) ∧ name = binFilename M K N ∧
      ∃ binary, a.outcome.contextBinary (matMulGraph M K N) = some binary ∧
        bytes = binary.take a.outcome.written := by
  obtain ⟨a, seen, event⟩ := List.mem_flatMap.mp member
  exact ⟨a, handled_subset seen, iteration_saves a event⟩

theorem under_written {event : ServerEvent} {name : String} {bytes : List Byte} :
    under (written event) name = some bytes ↔ event = .saves name bytes := by
  cases event with
  | saves filename held =>
      by_cases same : filename = name <;> simp [under, written, same]
  | _ => simp [under, written]

theorem directory_last (files : Directory) (arrivals : List Arrival) (name : String) :
    (∃ earlier bytes later, trace arrivals = earlier ++ .saves name bytes :: later ∧
      (∀ other, .saves name other ∉ later) ∧ directory files arrivals name = some bytes) ∨
    ((∀ bytes, .saves name bytes ∉ trace arrivals) ∧
      directory files arrivals name = files name) := by
  have ends := LastWrites.records_lookup written files (trace arrivals) name
  cases found : (trace arrivals).reverse.findSome? fun event => under (written event) name with
  | none =>
      right
      rw [found] at ends
      refine ⟨fun bytes member => ?_, ends⟩
      have missed := List.findSome?_eq_none_iff.mp found _ (List.mem_reverse.mpr member)
      rw [under_written.mpr rfl] at missed
      cases missed
  | some bytes =>
      left
      rw [found] at ends
      obtain ⟨after, event, before, split, hit, missed⟩ := List.findSome?_eq_some_iff.mp found
      obtain rfl := under_written.mp hit
      refine ⟨before.reverse, bytes, after.reverse, ?_, fun other member => ?_, ends⟩
      · have whole := congrArg List.reverse split
        simpa using whole
      · have none := missed _ (List.mem_reverse.mp member)
        rw [under_written.mpr rfl] at none
        cases none

-- Whatever the clients of the compile server send and whatever fails.
theorem compile_runs (files : Directory) (arrivals : List Arrival) : CompileRun files arrivals where
  last := directory_last files arrivals
  saved _ _ := trace_saves
  models M K N backendChoice := by
    obtain ⟨earlier, bytes, later, split, _⟩ | ⟨_, kept⟩ :=
      directory_last files arrivals (modelFilename M K N backendChoice)
    · have member : .saves (modelFilename M K N backendChoice) bytes ∈ trace arrivals := by
        rw [split]
        simp
      obtain ⟨_, _, m, k, n, _, same, _⟩ := trace_saves member
      exact absurd same (binFilename_ne_modelFilename m k n M K N backendChoice)
    · exact kept
  survives := survives_iff
  balanced := trace_balanced

end Runs

end NpuMatmul.CompileServer
