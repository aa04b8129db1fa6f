import NpuMatmul.Generator.ClientRuns

set_option autoImplicit false

namespace NpuMatmul.GenerationServer

section Settled

variable {ι : Type} {requests : ι → ClientRequest} {files : Files} {s t : System ι} {i : ι}
  {contents : List Byte}

-- The file of a client is there and not being written, and a client that has loaded has just it.
structure Settled (requests : ι → ClientRequest) (i : ι) (contents : List Byte) (s : System ι) :
    Prop where
  there : s.files (requests i).path = some contents
  closed : ∀ data bytes written, s.phase ≠ .writing data (requests i).model bytes written
  loaded : ∀ found, s.clients i = .loaded found → found = some contents

theorem Settled.server (settled : Settled requests i contents s) (clients : t.clients = s.clients)
    (same : t.files (requests i).path = s.files (requests i).path)
    (closed : ∀ data bytes written, t.phase ≠ .writing data (requests i).model bytes written) :
    Settled requests i contents t :=
  ⟨same.trans settled.there, closed, clients ▸ settled.loaded⟩

theorem Settled.setFile (settled : Settled requests i contents s) {data : List Char}
    {model : TfliteModel} (other : model ≠ (requests i).model) (written : List Byte)
    (bytes : List Byte) (count : Nat) :
    Settled requests i contents
      { s.setFile model.filename written with phase := .writing data model bytes count } := by
  have apart : (requests i).path ≠ model.filename := by
    rw [path_filename]
    exact fun same => other (filename_injective same).symm
  refine settled.server rfl (Function.update_of_ne apart _ _) fun data bytes written same => ?_
  cases same
  exact other rfl

variable [DecidableEq ι]

theorem Settled.client (settled : Settled requests i contents s) {j : ι} {next : Client}
    (clients : t.clients = Function.update s.clients j next) (files : t.files = s.files)
    (phase : t.phase = s.phase)
    (loaded : ∀ found, j = i → next = .loaded found → found = some contents) :
    Settled requests i contents t := by
  refine ⟨by rw [files, settled.there], by rw [phase]; exact settled.closed, fun found has => ?_⟩
  rw [clients] at has
  by_cases own : i = j
  · subst own
    rw [Function.update_self] at has
    exact loaded found rfl has
  · rw [Function.update_of_ne own] at has
    exact settled.loaded found has

theorem Settled.moves (settled : Settled requests i contents s)
    (consistent : Consistent requests files s) (moves : Moves requests s t) :
    Settled requests i contents t := by
  cases moves with
  | client j next backlog gives =>
      refine settled.client rfl rfl rfl fun found own loaded => ?_
      rw [gives found loaded, own, settled.there]
  | drops backlog c idle unopened => exact settled.server rfl rfl fun _ _ _ same => by cases same
  | advances backlog phase idle next sound =>
      refine settled.server rfl rfl fun data bytes written same => ?_
      dsimp only at same
      rw [same] at next
      cases next
  | finds data model handling =>
      exact settled.server rfl rfl fun _ _ _ same => by cases same
  | @creates data model bytes opening =>
      have sound := consistent.phase
      have idle : s.phase.current = [] := by rw [opening]; rfl
      rw [opening] at sound
      apply settled.setFile
      rintro rfl
      have absent := (consistent.closed idle _).trans sound.2
      rw [← path_filename, settled.there] at absent
      cases absent
  | @writes data model bytes written count writing =>
      apply settled.setFile
      rintro rfl
      exact settled.closed data bytes written writing
  | closes c held => exact settled.server rfl rfl fun _ _ _ same => by cases same
  | ends c d held same => exact settled.server rfl rfl fun _ _ _ same => by cases same

theorem Settled.after {events : List (Event ι)} (settled : Settled requests i contents s)
    (consistent : Consistent requests files s)
    (reached : Runs.after (System.step requests) s events = some t) :
    Settled requests i contents t := by
  have both := Runs.after_kept
    (I := fun t => Consistent requests files t ∧ Settled requests i contents t)
    (fun middle event next held moved => ⟨(held.1.moves (step_moves moved)).1,
      held.2.moves held.1 (step_moves moved)⟩)
    ⟨consistent, settled⟩ reached
  exact both.2

end Settled

section Delivery

variable {ι : Type} [DecidableEq ι] {requests : ι → ClientRequest} {files : Files} {s t : System ι}

theorem finishes (requests : ι → ClientRequest) (s : System ι) :
    ∃ events served, Runs.after (System.step requests) s events =
      some { s with phase := .accepting, served := served } := by
  have replies (s : System ι) {c : Connection} (replying : s.phase = .replying c) :
      ∃ served, Runs.after (System.step requests) s [.replies false] =
        some { s with phase := .accepting, served := served } :=
    ⟨s.served ++ [{ c with delivered := false }], by
      simp [Runs.after, System.step, replying, System.finish]⟩
  cases phase : s.phase with
  | accepting => exact ⟨[], s.served, by simp [Runs.after, ← phase]⟩
  | handling data model =>
      refine ⟨[.checks false], s.served ++ [dropped (some data)], ?_⟩
      simp [Runs.after, System.step, phase, System.finish]
  | converting data model =>
      refine ⟨[.converts none], s.served ++ [unconverted data], ?_⟩
      simp [Runs.after, System.step, phase, System.finish]
  | opening data model bytes =>
      refine ⟨[.creates false], s.served ++ [unopened data bytes], ?_⟩
      simp [Runs.after, System.step, phase, System.finish]
  | writing data model bytes written =>
      by_cases whole : bytes.length ≤ written
      · obtain ⟨served, ends⟩ := replies { s with phase := .replying (cutShort data bytes written) }
          rfl
        refine ⟨[.closes, .replies false], served, ?_⟩
        simpa [Runs.after, System.step, phase, whole] using ends
      · refine ⟨[.closes], s.served ++ [cutShort data bytes written], ?_⟩
        simp [Runs.after, System.step, phase, whole, System.finish]
  | replying c =>
      obtain ⟨served, ends⟩ := replies s phase
      exact ⟨[.replies false], served, ends⟩

theorem drains (requests : ι → ClientRequest) (s : System ι) :
    ∃ events served, Runs.after (System.step requests) s events =
      some { s with phase := .accepting, served := served, backlog := [] } := by
  obtain ⟨events, served, finished⟩ := finishes requests s
  suffices waiting : ∀ backlog served, ∃ later last,
      Runs.after (System.step requests)
        { s with phase := .accepting, served := served, backlog := backlog } later =
        some { s with phase := .accepting, served := last, backlog := [] } by
    obtain ⟨later, last, drained⟩ := waiting s.backlog served
    exact ⟨events ++ later, last, by rw [Runs.after_append, finished]; exact drained⟩
  intro backlog
  induction backlog with
  | nil => exact fun served => ⟨[], served, rfl⟩
  | cons sent backlog ih =>
      intro served
      obtain ⟨later, last, drained⟩ := ih (served ++ [dropped none])
      exact ⟨.accepts none :: later, last, drained⟩

theorem delivers (i : ι) (whole : List Byte) (short : (requests i).text.length ≤ 1024)
    (accepting : s.phase = .accepting) (alone : s.backlog = []) (begins : s.clients i = .starting)
    (absent : s.files (requests i).path = none) :
    ∃ events t, Runs.after (System.step requests) s events = some t ∧
      t.clients i = .loaded (some whole) := by
  have parsed : parseRequest (requests i).text = .generate (requests i).model :=
    parseRequest_generationRequest _ _ _ _
  have arrived : (requests i).text.take 1024 = (requests i).text := List.take_of_length_le short
  rw [path_filename] at absent
  refine ⟨[.asks i true, .accepts (some 1024), .checks true, .converts (some whole), .creates true,
    .writes whole.length, .closes, .replies true, .opens i], _, by
    simp only [Runs.after, System.step, begins, accepting, alone, Option.bind_some, if_true,
      List.nil_append, Option.map_some, min_self, arrived, parsed, Bool.not_true, Bool.false_eq_true,
      if_false, absent, System.setFile, Function.update_self, Option.getD_some, List.drop_zero,
      List.take_length, Nat.zero_add, le_refl, System.finish]
    rfl, ?_⟩
  simp [path_filename]

-- From any state that the clients and the server get to, a client that has not started can still be
-- given these contents just if its file is not there, or holds them already; a file that is being
-- written apart.
theorem client_can_load (requests : ι → ClientRequest) (files : Files) (events : List (Event ι))
    (reached : Runs.after (System.step requests) (.start files) events = some s) (i : ι)
    (begins : s.clients i = .starting) (short : (requests i).text.length ≤ 1024)
    (closed : ∀ data bytes written, s.phase ≠ .writing data (requests i).model bytes written)
    (whole : List Byte) :
    (∃ later t, Runs.after (System.step requests) s later = some t ∧
        t.clients i = .loaded (some whole)) ↔
      s.files (requests i).path = none ∨ s.files (requests i).path = some whole := by
  have consistent := ((start_consistent requests files).after reached).1
  constructor
  · rintro ⟨later, t, ran, loaded⟩
    cases there : s.files (requests i).path with
    | none => exact .inl rfl
    | some contents =>
        have settled : Settled requests i contents s := by
          refine ⟨there, closed, fun found has => ?_⟩
          rw [begins] at has
          cases has
        exact .inr ((settled.after consistent ran).loaded _ loaded).symm
  · rintro (absent | present)
    · obtain ⟨first, served, drained⟩ := drains requests s
      obtain ⟨last, t, ran, loaded⟩ := delivers
        (s := { s with phase := .accepting, served := served, backlog := [] }) i whole short rfl rfl
        begins absent
      refine ⟨first ++ last, t, ?_, loaded⟩
      rw [Runs.after_append, drained]
      exact ran
    · refine ⟨[.asks i false, .opens i], _, by simp [Runs.after, System.step, begins]; rfl, ?_⟩
      simp [present]

end Delivery

section Sample

def pairRequests (i : Bool) : ClientRequest :=
  if i then { M := 1, K := 2, N := 3, backendChoice := 1 }
  else { M := 4, K := 5, N := 6, backendChoice := 3 }

def halfWritten : List (Event Bool) :=
  [.asks true true, .accepts (some 1024), .checks true, .converts (some [7, 9]), .creates true,
    .writes 1]

def Phase.target : Phase → Option TfliteModel
  | .writing _ model _ _ => some model
  | _ => none

theorem client_can_load_sample :
    ∃ s, Runs.after (System.step pairRequests) (.start []) halfWritten = some s ∧
      ∀ whole, ∃ later t, Runs.after (System.step pairRequests) s later = some t ∧
        t.clients false = .loaded (some whole) := by
  have facts : ((Runs.after (System.step pairRequests) (.start []) halfWritten).map fun s =>
      (s.clients false, s.files (pairRequests false).path, s.phase.target)) =
        some (.starting, none, some (pairRequests true).model) := by
    decide +kernel
  obtain ⟨s, reached, all⟩ := Option.map_eq_some_iff.mp facts
  simp only [Prod.mk.injEq] at all
  obtain ⟨begins, absent, target⟩ := all
  have short : (pairRequests false).text.length ≤ 1024 := by decide +kernel
  have closed : ∀ data bytes written,
      s.phase ≠ .writing data (pairRequests false).model bytes written := by
    intro data bytes written writing
    rw [writing] at target
    have same : some (pairRequests false).model = some (pairRequests true).model := target
    exact absurd same (by decide)
  exact ⟨s, reached, fun whole => (client_can_load pairRequests [] halfWritten reached false begins
    short closed whole).mpr (.inl absent)⟩

end Sample

end NpuMatmul.GenerationServer
