import Mathlib.Algebra.Order.BigOperators.Group.List
import NpuMatmul.Shared.Loop
import NpuMatmul.Shared.LoopNest

set_option autoImplicit false

-- Threads that run straight-line code against one memory, in any interleaving of their accesses.
namespace Threads

variable {κ : Type} [DecidableEq κ] {ν : κ → Type} {σ ι : Type} [DecidableEq ι]

-- A thread computes on a state of its own and goes to the memory one cell at a time.
inductive Instruction (σ : Type) (ν : κ → Type) where
  | compute (change : σ → σ)
  | load (cell : κ) (take : ν cell → σ → σ)
  | store (cell : κ) (value : σ → ν cell)

structure Machine (σ : Type) (ν : κ → Type) where
  own : σ
  memory : (cell : κ) → ν cell

def Instruction.exec : Instruction σ ν → Machine σ ν → Machine σ ν
  | .compute change, machine => { machine with own := change machine.own }
  | .load cell take, machine => { machine with own := take (machine.memory cell) machine.own }
  | .store cell value, machine =>
      { machine with memory := Function.update machine.memory cell (value machine.own) }

omit [DecidableEq κ] in
def Instruction.touched : Instruction σ ν → Option κ
  | .compute _ => none
  | .load cell _ => some cell
  | .store cell _ => some cell

omit [DecidableEq κ] in
def Instruction.stored : Instruction σ ν → Option κ
  | .compute _ | .load _ _ => none
  | .store cell _ => some cell

def execAll (code : List (Instruction σ ν)) (machine : Machine σ ν) : Machine σ ν :=
  code.foldl (fun machine instruction => instruction.exec machine) machine

def Touches (code : List (Instruction σ ν)) (cell : κ) : Prop :=
  ∃ instruction ∈ code, instruction.touched = some cell

def Stores (code : List (Instruction σ ν)) (cell : κ) : Prop :=
  ∃ instruction ∈ code, instruction.stored = some cell

-- What one thread writes no other one reads or writes.
def RaceFree (code : ι → List (Instruction σ ν)) : Prop :=
  ∀ i j, i ≠ j → ∀ cell, Stores (code i) cell → ¬ Touches (code j) cell

structure Running (ι σ : Type) (ν : κ → Type) where
  left : ι → List (Instruction σ ν)
  own : ι → σ
  memory : (cell : κ) → ν cell

def Running.turn (running : Running ι σ ν) (i : ι) : Running ι σ ν :=
  match running.left i with
  | [] => running
  | instruction :: rest =>
      let next := instruction.exec { own := running.own i, memory := running.memory }
      { left := Function.update running.left i rest
        own := Function.update running.own i next.own
        memory := next.memory }

def Running.play (running : Running ι σ ν) (schedule : List ι) : Running ι σ ν :=
  schedule.foldl Running.turn running

def Running.Finished (running : Running ι σ ν) : Prop := ∀ i, running.left i = []

def begun (code : ι → List (Instruction σ ν)) (own : ι → σ) (memory : (cell : κ) → ν cell) :
    Running ι σ ν :=
  { left := code, own := own, memory := memory }

def oneByOne (code : ι → List (Instruction σ ν)) (own : ι → σ) (order : List ι)
    (memory : (cell : κ) → ν cell) : (cell : κ) → ν cell :=
  order.foldl (fun memory i => (execAll (code i) { own := own i, memory := memory }).memory) memory

section Code

variable {code rest : List (Instruction σ ν)} {cell : κ} {instruction : Instruction σ ν}

@[simp] theorem execAll_nil (machine : Machine σ ν) : execAll [] machine = machine := rfl

@[simp] theorem execAll_cons (machine : Machine σ ν) :
    execAll (instruction :: code) machine = execAll code (instruction.exec machine) := rfl

theorem execAll_append (machine : Machine σ ν) :
    execAll (code ++ rest) machine = execAll rest (execAll code machine) :=
  List.foldl_append

theorem execAll_loop (n : Nat) (body : Nat → List (Instruction σ ν)) (machine : Machine σ ν) :
    execAll (LoopNest.loop n body) machine =
      Loop.forLoop n (fun i => execAll (body i)) machine := by
  induction n with
  | zero => rfl
  | succ n ih =>
      rw [Loop.forLoop_succ, ← ih, ← execAll_append]
      simp [LoopNest.loop, List.range_succ]

omit [DecidableEq κ] in
theorem touches_of_stores (stores : Stores code cell) : Touches code cell := by
  obtain ⟨instruction, member, stored⟩ := stores
  refine ⟨instruction, member, ?_⟩
  cases instruction with
  | compute change => cases stored
  | load cell take => cases stored
  | store cell value => exact stored

theorem exec_kept (machine : Machine σ ν) (other : instruction.stored ≠ some cell) :
    (instruction.exec machine).memory cell = machine.memory cell := by
  cases instruction with
  | compute change => rfl
  | load place take => rfl
  | store place value =>
      have apart : cell ≠ place := by
        intro same
        subst same
        exact other rfl
      exact Function.update_of_ne apart _ _

theorem exec_own_alike {machine other : Machine σ ν} (own : machine.own = other.own)
    (touched : ∀ place, instruction.touched = some place →
      machine.memory place = other.memory place) :
    (instruction.exec machine).own = (instruction.exec other).own := by
  cases instruction with
  | compute change => exact congrArg change own
  | load place take => simp only [Instruction.exec, own, touched place rfl]
  | store place value => exact own

theorem exec_memory_alike {machine other : Machine σ ν} (own : machine.own = other.own)
    (same : machine.memory cell = other.memory cell) :
    (instruction.exec machine).memory cell = (instruction.exec other).memory cell := by
  cases instruction with
  | compute change => exact same
  | load place take => exact same
  | store place value =>
      simp only [Instruction.exec, own]
      by_cases here : cell = place
      · subst here
        simp
      · simp [Function.update_of_ne here, same]

end Code

section Interleaved

variable {code : ι → List (Instruction σ ν)} {own : ι → σ} {memory : (cell : κ) → ν cell}
  {running : Running ι σ ν} {i j : ι} {cell : κ}

-- The memory at the end of each thread on its own, where some thread goes, and the initial one
-- where none writes.
structure Settled (code : ι → List (Instruction σ ν)) (own : ι → σ)
    (memory final : (cell : κ) → ν cell) : Prop where
  touched : ∀ i cell, Touches (code i) cell →
    final cell = (execAll (code i) { own := own i, memory := memory }).memory cell
  kept : ∀ cell, (∀ i, ¬ Stores (code i) cell) → final cell = memory cell

omit [DecidableEq ι] in
theorem Settled.unique {first second : (cell : κ) → ν cell}
    (settled : Settled code own memory first) (other : Settled code own memory second) :
    first = second := by
  funext cell
  by_cases written : ∃ i, Stores (code i) cell
  · obtain ⟨i, stores⟩ := written
    have touches := touches_of_stores stores
    rw [settled.touched i cell touches, other.touched i cell touches]
  · have unwritten : ∀ i, ¬ Stores (code i) cell := fun i stores => written ⟨i, stores⟩
    rw [settled.kept cell unwritten, other.kept cell unwritten]

structure Follows (code : ι → List (Instruction σ ν)) (own : ι → σ)
    (memory : (cell : κ) → ν cell) (running : Running ι σ ν) (i : ι)
    (done : List (Instruction σ ν)) : Prop where
  split : code i = done ++ running.left i
  state : running.own i = (execAll done { own := own i, memory := memory }).own
  sees : ∀ cell, Touches (code i) cell →
    running.memory cell = (execAll done { own := own i, memory := memory }).memory cell

structure InStep (code : ι → List (Instruction σ ν)) (own : ι → σ)
    (memory : (cell : κ) → ν cell) (running : Running ι σ ν) : Prop where
  follows : ∀ i, ∃ done, Follows code own memory running i done
  kept : ∀ cell, (∀ i, ¬ Stores (code i) cell) → running.memory cell = memory cell

omit [DecidableEq ι] in
theorem inStep_begun : InStep code own memory (begun code own memory) := by
  constructor
  · intro i
    exact ⟨[], rfl, rfl, fun cell _ => rfl⟩
  · intro cell _
    rfl

theorem turn_cons {instruction : Instruction σ ν} {rest : List (Instruction σ ν)}
    (left : running.left i = instruction :: rest) :
    running.turn i =
      { left := Function.update running.left i rest
        own := Function.update running.own i
          (instruction.exec { own := running.own i, memory := running.memory }).own
        memory := (instruction.exec { own := running.own i, memory := running.memory }).memory } := by
  simp only [Running.turn, left]

theorem turn_nil (left : running.left i = []) : running.turn i = running := by
  simp only [Running.turn, left]

theorem follows_own {instruction : Instruction σ ν} {rest done : List (Instruction σ ν)}
    (left : running.left i = instruction :: rest)
    (follows : Follows code own memory running i done) :
    Follows code own memory (running.turn i) i (done ++ [instruction]) := by
  have member : instruction ∈ code i := by simp [follows.split, left]
  rw [turn_cons left]
  constructor
  · simp [follows.split, left]
  · rw [execAll_append]
    simp only [Function.update_self]
    apply exec_own_alike follows.state
    intro place touched
    exact follows.sees place ⟨instruction, member, touched⟩
  · intro cell touches
    rw [execAll_append]
    exact exec_memory_alike follows.state (follows.sees cell touches)

theorem follows_other (raceFree : RaceFree code) {instruction : Instruction σ ν}
    {rest done : List (Instruction σ ν)} (left : running.left j = instruction :: rest)
    (member : instruction ∈ code j) (other : i ≠ j)
    (follows : Follows code own memory running i done) :
    Follows code own memory (running.turn j) i done := by
  rw [turn_cons left]
  constructor
  · simpa [Function.update_of_ne other] using follows.split
  · simpa [Function.update_of_ne other] using follows.state
  · intro cell touches
    have missed : instruction.stored ≠ some cell := fun stored =>
      raceFree j i other.symm cell ⟨instruction, member, stored⟩ touches
    rw [← follows.sees cell touches]
    exact exec_kept _ missed

theorem turn_inStep (raceFree : RaceFree code) (inStep : InStep code own memory running) (j : ι) :
    InStep code own memory (running.turn j) := by
  cases left : running.left j with
  | nil => rwa [turn_nil left]
  | cons instruction rest =>
      obtain ⟨before, ran⟩ := inStep.follows j
      have member : instruction ∈ code j := by simp [ran.split, left]
      constructor
      · intro i
        by_cases same : i = j
        · subst same
          exact ⟨_, follows_own left ran⟩
        · obtain ⟨done, follows⟩ := inStep.follows i
          exact ⟨done, follows_other raceFree left member same follows⟩
      · intro cell unwritten
        have missed : instruction.stored ≠ some cell := fun stored =>
          unwritten j ⟨instruction, member, stored⟩
        rw [turn_cons left, ← inStep.kept cell unwritten]
        exact exec_kept _ missed

theorem play_inStep (raceFree : RaceFree code) (schedule : List ι)
    (inStep : InStep code own memory running) :
    InStep code own memory (running.play schedule) := by
  induction schedule generalizing running with
  | nil => exact inStep
  | cons i later ih => exact ih (turn_inStep raceFree inStep i)

theorem finished_settled (raceFree : RaceFree code) {schedule : List ι}
    (finished : ((begun code own memory).play schedule).Finished) :
    Settled code own memory ((begun code own memory).play schedule).memory := by
  have start : InStep code own memory (begun code own memory) := inStep_begun
  have inStep := play_inStep raceFree schedule start
  refine ⟨fun i cell touches => ?_, inStep.kept⟩
  obtain ⟨done, follows⟩ := inStep.follows i
  have whole : code i = done := by simpa [finished i] using follows.split
  rw [whole]
  exact follows.sees cell touches

theorem play_left (schedule : List ι) (running : Running ι σ ν) (i : ι) :
    (running.play schedule).left i = (running.left i).drop (schedule.count i) := by
  induction schedule generalizing running with
  | nil => simp [Running.play]
  | cons j later ih =>
      have turned : (running.turn j).left i =
          (running.left i).drop (if j = i then 1 else 0) := by
        cases left : running.left j with
        | nil =>
            rw [turn_nil left]
            split
            next same => simp [← same, left]
            next => rfl
        | cons instruction rest =>
            rw [turn_cons left]
            by_cases same : i = j
            · subst same
              simp [left]
            · simp [Function.update_of_ne same, Ne.symm same]
      have played := ih (running.turn j)
      rw [turned, List.drop_drop] at played
      rw [List.count_cons]
      simpa [Running.play, Nat.add_comm] using played

theorem finished_iff (schedule : List ι) :
    ((begun code own memory).play schedule).Finished ↔
      ∀ i, (code i).length ≤ schedule.count i := by
  simp [Running.Finished, play_left, begun]

section Sequential

def inTurn (code : ι → List (Instruction σ ν)) (order : List ι) : List ι :=
  order.flatMap fun i => List.replicate (code i).length i

theorem play_replicate (running : Running ι σ ν) (i : ι) :
    (running.play (List.replicate (running.left i).length i)) =
      { left := Function.update running.left i []
        own := Function.update running.own i
          (execAll (running.left i) { own := running.own i, memory := running.memory }).own
        memory :=
          (execAll (running.left i) { own := running.own i, memory := running.memory }).memory } := by
  generalize remaining : running.left i = code
  induction code generalizing running with
  | nil =>
      have nothing : Function.update running.left i [] = running.left := by
        rw [← remaining, Function.update_eq_self]
      simp [Running.play, nothing]
  | cons instruction rest ih =>
      have turned := turn_cons remaining
      have here : (running.turn i).left i = rest := by simp [turned]
      have later := ih (running.turn i) here
      simp only [turned, Function.update_self, Function.update_idem] at later
      simpa only [List.length_cons, List.replicate_succ, Running.play, List.foldl_cons, turned,
        execAll_cons] using later

theorem play_inTurn {order : List ι} (nodup : order.Nodup) (running : Running ι σ ν)
    (fresh : ∀ i ∈ order, running.left i = code i ∧ running.own i = own i) :
    (running.play (inTurn code order)).memory = oneByOne code own order running.memory := by
  induction order generalizing running with
  | nil => rfl
  | cons i later ih =>
      obtain ⟨absent, nodup⟩ := List.nodup_cons.mp nodup
      obtain ⟨left, state⟩ := fresh i (List.mem_cons_self)
      have first := play_replicate running i
      rw [left, state] at first
      have next := ih nodup (running.play (List.replicate (code i).length i)) (by
        intro j member
        have other : j ≠ i := fun same => absent (same ▸ member)
        rw [first]
        simpa [Function.update_of_ne other] using fresh j (List.mem_cons_of_mem i member))
      have played : running.play (inTurn code (i :: later)) =
          (running.play (List.replicate (code i).length i)).play (inTurn code later) := by
        simp [inTurn, Running.play, List.foldl_append]
      rw [played, next, first]
      rfl

theorem oneByOne_settled (raceFree : RaceFree code) {order : List ι} (nodup : order.Nodup)
    (idle : ∀ i ∉ order, code i = []) :
    Settled code own memory (oneByOne code own order memory) := by
  have memories : ((begun code own memory).play (inTurn code order)).memory =
      oneByOne code own order memory :=
    play_inTurn nodup (begun code own memory) fun i _ => ⟨rfl, rfl⟩
  have finished : ((begun code own memory).play (inTurn code order)).Finished := by
    rw [finished_iff]
    intro i
    by_cases member : i ∈ order
    · rw [inTurn, List.count_flatMap]
      have counted : (code i).length =
          (List.count i ∘ fun j => List.replicate (code j).length j) i := by simp
      rw [counted]
      exact List.le_sum_of_mem (List.mem_map_of_mem member)
    · simp [idle i member]
  have settled := finished_settled raceFree finished
  rwa [memories] at settled

theorem finished_memory (raceFree : RaceFree code) {order : List ι} (nodup : order.Nodup)
    (idle : ∀ i ∉ order, code i = []) {schedule : List ι}
    (finished : ((begun code own memory).play schedule).Finished) :
    ((begun code own memory).play schedule).memory = oneByOne code own order memory :=
  (finished_settled raceFree finished).unique (oneByOne_settled raceFree nodup idle)

end Sequential

end Interleaved

section Simulated

variable {α : Type} (repr : α → (cell : κ) → ν cell)

theorem loop_simulated {body : Nat → List (Instruction σ ν)} {step : Nat → α → α} {n : Nat}
    (simulated : ∀ i < n, ∀ own value,
      (execAll (body i) { own := own, memory := repr value }).memory = repr (step i value))
    (own : σ) (value : α) :
    (execAll (LoopNest.loop n body) { own := own, memory := repr value }).memory =
      repr (Loop.forLoop n step value) := by
  rw [execAll_loop]
  induction n with
  | zero => rfl
  | succ n ih =>
      have earlier := ih fun i below => simulated i (Nat.lt_succ_of_lt below)
      rw [Loop.forLoop_succ, Loop.forLoop_succ, ← simulated n (Nat.lt_succ_self n)
        (Loop.forLoop n (fun i => execAll (body i)) { own := own, memory := repr value }).own,
        ← earlier]

theorem oneByOne_simulated {code : Nat → List (Instruction σ ν)} {step : Nat → α → α} {n : Nat}
    (simulated : ∀ i < n, ∀ own value,
      (execAll (code i) { own := own, memory := repr value }).memory = repr (step i value))
    (own : Nat → σ) (value : α) :
    oneByOne code own (List.range n) (repr value) = repr (Loop.forLoop n step value) := by
  induction n with
  | zero => rfl
  | succ n ih =>
      have earlier := ih fun i below => simulated i (Nat.lt_succ_of_lt below)
      unfold oneByOne at earlier ⊢
      rw [List.range_succ, List.foldl_append, earlier, Loop.forLoop_succ]
      exact simulated n (Nat.lt_succ_self n) (own n) (Loop.forLoop n step value)

theorem parallelFor_memory {code : Nat → List (Instruction σ ν)} {step : Nat → α → α} {n : Nat}
    (raceFree : RaceFree code) (idle : ∀ i, n ≤ i → code i = [])
    (simulated : ∀ i < n, ∀ own value,
      (execAll (code i) { own := own, memory := repr value }).memory = repr (step i value))
    {own : Nat → σ} {value : α} {schedule : List Nat}
    (finished : ((begun code own (repr value)).play schedule).Finished) :
    ((begun code own (repr value)).play schedule).memory = repr (Loop.forLoop n step value) := by
  rw [← oneByOne_simulated repr simulated own value]
  apply finished_memory raceFree List.nodup_range _ finished
  intro i out
  exact idle i (by simpa using out)

def roundRobin (n turns : Nat) : List Nat := (List.range turns).flatMap fun _ => List.range n

omit [DecidableEq κ] in
theorem roundRobin_count {n i : Nat} (below : i < n) (turns : Nat) :
    (roundRobin n turns).count i = turns := by
  have once : (List.range n).count i = 1 :=
    List.count_eq_one_of_mem List.nodup_range (List.mem_range.mpr below)
  induction turns with
  | zero => rfl
  | succ turns ih => simp_all [roundRobin, List.range_succ]

theorem roundRobin_finished {code : Nat → List (Instruction σ ν)} {n turns : Nat}
    (idle : ∀ i, n ≤ i → code i = []) (short : ∀ i < n, (code i).length ≤ turns) (own : Nat → σ)
    (memory : (cell : κ) → ν cell) :
    ((begun code own memory).play (roundRobin n turns)).Finished := by
  rw [finished_iff]
  intro i
  by_cases below : i < n
  · rw [roundRobin_count below]
    exact short i below
  · simp [idle i (not_lt.mp below)]

end Simulated

section Owned

variable {owns : κ → Prop} {code rest : List (Instruction σ ν)} {instruction : Instruction σ ν}

def Within (owns : κ → Prop) (code : List (Instruction σ ν)) : Prop :=
  ∀ cell, Touches code cell → owns cell

omit [DecidableEq κ]

@[simp] theorem within_nil : Within owns ([] : List (Instruction σ ν)) := by
  rintro cell ⟨instruction, member, _⟩
  cases member

@[simp] theorem within_cons :
    Within owns (instruction :: rest) ↔
      (∀ cell, instruction.touched = some cell → owns cell) ∧ Within owns rest := by
  simp [Within, Touches, or_imp, forall_and]

@[simp] theorem within_append :
    Within owns (code ++ rest) ↔ Within owns code ∧ Within owns rest := by
  simp [Within, Touches, or_and_right, exists_or, or_imp, forall_and]

theorem within_loop {n : Nat} {body : Nat → List (Instruction σ ν)}
    (within : ∀ i < n, Within owns (body i)) : Within owns (LoopNest.loop n body) := by
  rintro cell ⟨instruction, member, touched⟩
  obtain ⟨i, below, member⟩ := LoopNest.mem_loop.mp member
  exact within i below cell ⟨instruction, member, touched⟩

theorem raceFree_owned {n : Nat} (owns : Nat → κ → Prop) {code : Nat → List (Instruction σ ν)}
    (idle : ∀ i, n ≤ i → code i = []) (within : ∀ i < n, Within (owns i) (code i))
    (apart : ∀ i < n, ∀ j < n, ∀ cell, owns i cell → owns j cell → i = j) : RaceFree code := by
  intro i j other cell stores touches
  have busy {i : Nat} (touches : Touches (code i) cell) : i < n := by
    by_contra out
    rw [idle i (not_lt.mp out)] at touches
    obtain ⟨instruction, member, _⟩ := touches
    cases member
  have touched := touches_of_stores stores
  exact other (apart i (busy touched) j (busy touches) cell
    (within i (busy touched) cell touched) (within j (busy touches) cell touches))

end Owned

end Threads
