import Mathlib.Logic.Function.Basic
import NpuMatmul.Generator.ServerRuns
import NpuMatmul.Shared.Runs

set_option autoImplicit false

namespace NpuMatmul.GenerationServer

open FirstWrites TableWrites

section Code

variable {ι : Type} [DecidableEq ι]

structure ClientRequest where
  M : Nat
  K : Nat
  N : Nat
  backendChoice : Int

namespace ClientRequest

def text (r : ClientRequest) : List Char :=
  (generationRequest r.M r.K r.N r.backendChoice).toList

def path (r : ClientRequest) : String := modelFilename r.M r.K r.N r.backendChoice

def model (r : ClientRequest) : TfliteModel :=
  { M := r.M, K := r.K, N := r.N, isGpu := decide (r.backendChoice = 3) }

end ClientRequest

-- A client waits from the end of its send until read returns, with a reply, at the end of the
-- connection or after the timeout; whatever read returned, it then opens its file.
inductive Client where
  | starting
  | waiting
  | loaded (contents : Option (List Byte))
deriving DecidableEq, Repr

-- Where the loop of the server stands with the connection it has accepted.
inductive Phase where
  | accepting
  | handling (data : List Char) (model : TfliteModel)
  | converting (data : List Char) (model : TfliteModel)
  | opening (data : List Char) (model : TfliteModel) (bytes : List Byte)
  | writing (data : List Char) (model : TfliteModel) (bytes : List Byte) (written : Nat)
  | replying (c : Connection)

-- The directory the processes share, what the clients have sent and the server not yet accepted,
-- and of each connection that is over how it fared.
structure System (ι : Type) where
  files : String → Option (List Byte)
  backlog : List (List Char)
  phase : Phase
  served : List Connection
  clients : ι → Client

inductive Event (ι : Type) where
  | asks (i : ι) (connected : Bool)
  | opens (i : ι)
  | accepts (arrived : Option Nat)
  | checks (directoryMade : Bool)
  | converts (converted : Option (List Byte))
  | creates (opened : Bool)
  | writes (count : Nat)
  | closes
  | replies (delivered : Bool)

def dropped (data : Option (List Char)) : Connection :=
  { data := data, directoryMade := false, converted := fun _ => none, opened := false, written := 0,
    delivered := false }

def unconverted (data : List Char) : Connection := { dropped (some data) with directoryMade := true }

def unopened (data : List Char) (bytes : List Byte) : Connection :=
  { unconverted data with converted := fun _ => some bytes }

def cutShort (data : List Char) (bytes : List Byte) (written : Nat) : Connection :=
  { unopened data bytes with opened := true, written := written }

namespace System

variable (requests : ι → ClientRequest) (s : System ι)

def finish (c : Connection) : System ι :=
  { s with phase := .accepting, served := s.served ++ [c] }

def setFile (name : String) (contents : List Byte) : System ι :=
  { s with files := Function.update s.files name (some contents) }

-- One step of a client or of the server. The server opens the file for writing, which empties it,
-- and the bytes reach it in pieces.
def step : Event ι → Option (System ι)
  | .asks i connected =>
      match s.clients i with
      | .starting => some { s with
          clients := Function.update s.clients i .waiting
          backlog := if connected then s.backlog ++ [(requests i).text] else s.backlog }
      | _ => none
  | .opens i =>
      match s.clients i with
      | .waiting => some { s with
          clients := Function.update s.clients i (.loaded (s.files (requests i).path)) }
      | _ => none
  | .accepts arrived =>
      match s.phase, s.backlog with
      | .accepting, sent :: backlog =>
          let data := arrived.map fun count => sent.take (min count 1024)
          let s := { s with backlog := backlog }
          match data with
          | none => some (s.finish (dropped none))
          | some data =>
              match parseRequest data with
              | .generate model => some { s with phase := .handling data model }
              | .ignored | .raised => some (s.finish (dropped (some data)))
      | _, _ => none
  | .checks directoryMade =>
      match s.phase with
      | .handling data model =>
          if !directoryMade then some (s.finish (dropped (some data)))
          else
            match s.files model.filename with
            | some _ => some { s with phase := .replying (unconverted data) }
            | none => some { s with phase := .converting data model }
      | _ => none
  | .converts converted =>
      match s.phase with
      | .converting data model =>
          match converted with
          | some bytes => some { s with phase := .opening data model bytes }
          | none => some (s.finish (unconverted data))
      | _ => none
  | .creates opened =>
      match s.phase with
      | .opening data model bytes =>
          if opened then
            some { s.setFile model.filename [] with phase := .writing data model bytes 0 }
          else some (s.finish (unopened data bytes))
      | _ => none
  | .writes count =>
      match s.phase with
      | .writing data model bytes written =>
          let contents := (s.files model.filename).getD []
          some { s.setFile model.filename (contents ++ (bytes.drop written).take count) with
            phase := .writing data model bytes (written + count) }
      | _ => none
  | .closes =>
      match s.phase with
      | .writing data _ bytes written =>
          let c := cutShort data bytes written
          if bytes.length ≤ written then some { s with phase := .replying c } else some (s.finish c)
      | _ => none
  | .replies delivered =>
      match s.phase with
      | .replying c => some (s.finish { c with delivered := delivered })
      | _ => none

def start (files : Files) : System ι :=
  { files := fun name => files.lookup name, backlog := [], phase := .accepting, served := []
    clients := fun _ => .starting }

end System

end Code

section Directory

def Phase.current : Phase → List Connection
  | .writing data _ bytes written => [cutShort data bytes written]
  | .replying c => [c]
  | _ => []

def System.sources {ι : Type} (s : System ι) : List Connection := s.served ++ s.phase.current

def Phase.Sound (held : String → Option (List Byte)) : Phase → Prop
  | .accepting | .replying _ => True
  | .handling data model => parseRequest data = .generate model
  | .converting data model | .opening data model _ | .writing data model _ _ =>
      parseRequest data = .generate model ∧ held model.filename = none

def Grows (before after : String → Option (List Byte)) : Prop :=
  ∀ name bytes, before name = some bytes → ∃ more, after name = some (bytes ++ more)

theorem Grows.refl (files : String → Option (List Byte)) : Grows files files :=
  fun _ bytes there => ⟨[], by rw [there, List.append_nil]⟩

theorem Grows.trans {first second third : String → Option (List Byte)} (earlier : Grows first second)
    (later : Grows second third) : Grows first third := by
  intro name bytes there
  obtain ⟨more, grown⟩ := earlier name bytes there
  obtain ⟨last, whole⟩ := later name _ grown
  exact ⟨more ++ last, by rw [whole, List.append_assoc]⟩

-- The directory is what the server alone would have left, had the connection in hand ended here.
structure Consistent {ι : Type} (requests : ι → ClientRequest) (files : Files) (s : System ι) :
    Prop where
  directory : ∀ name, s.files name = (serve files s.sources).1.lookup name
  phase : s.phase.Sound fun name => (serve files s.served).1.lookup name
  loaded : ∀ i bytes, s.clients i = .loaded (some bytes) →
    ∃ more, s.files (requests i).path = some (bytes ++ more)

theorem lookup_served (files : Files) (served : List Connection) (c : Connection) (name : String) :
    (serve files (served ++ [c])).1.lookup name =
      ((serve files served).1.lookup name).or (under c.makes name) := by
  rw [serve_lookup, serve_lookup, List.findSome?_append, ← Option.or_assoc]
  congr 1
  cases made : under c.makes name <;> simp [made]

theorem makes_unopened {c : Connection} (unopened : c.opened = false) : c.makes = none := by
  unfold Connection.makes
  split
  · simp [unopened]
  · rfl

theorem lookup_unopened {c : Connection} (unopened : c.opened = false) (files : Files)
    (served : List Connection) (name : String) :
    (serve files (served ++ [c])).1.lookup name = (serve files served).1.lookup name := by
  rw [lookup_served, makes_unopened unopened]
  exact Option.or_none

theorem lookup_cutShort {files : Files} {served : List Connection} {data : List Char}
    {model : TfliteModel} (parsed : parseRequest data = .generate model)
    (absent : (serve files served).1.lookup model.filename = none) (bytes : List Byte)
    (written : Nat) (name : String) :
    (serve files (served ++ [cutShort data bytes written])).1.lookup name =
      if name = model.filename then some (bytes.take written)
      else (serve files served).1.lookup name := by
  have made : (cutShort data bytes written).makes = some (model.filename, bytes.take written) := by
    simp [Connection.makes, cutShort, unopened, unconverted, dropped, parsed]
  rw [lookup_served, made]
  by_cases own : name = model.filename
  · rw [own, absent]
    simp [under]
  · have apart : model.filename ≠ name := Ne.symm own
    simp [under, own, apart]

end Directory

section Moves

variable {ι : Type} [DecidableEq ι]

inductive Moves (requests : ι → ClientRequest) (s : System ι) : System ι → Prop where
  | client (j : ι) (next : Client) (backlog : List (List Char))
      (gives : ∀ found, next = .loaded found → found = s.files (requests j).path) :
      Moves requests s { s with
        clients := Function.update s.clients j next, backlog := backlog }
  | drops (backlog : List (List Char)) (c : Connection) (idle : s.phase.current = [])
      (unopened : c.opened = false) :
      Moves requests s ({ s with backlog := backlog }.finish c)
  | advances (backlog : List (List Char)) (phase : Phase) (idle : s.phase.current = [])
      (next : phase.current = []) (sound : s.phase.Sound s.files → phase.Sound s.files) :
      Moves requests s { s with phase := phase, backlog := backlog }
  | finds (data : List Char) (model : TfliteModel) (handling : s.phase = .handling data model) :
      Moves requests s { s with phase := .replying (unconverted data) }
  | creates {data : List Char} {model : TfliteModel} {bytes : List Byte}
      (opening : s.phase = .opening data model bytes) :
      Moves requests s { s.setFile model.filename [] with phase := .writing data model bytes 0 }
  | writes {data : List Char} {model : TfliteModel} {bytes : List Byte} {written : Nat}
      (count : Nat) (writing : s.phase = .writing data model bytes written) :
      Moves requests s
        { s.setFile model.filename
            (((s.files model.filename).getD []) ++ (bytes.drop written).take count) with
          phase := .writing data model bytes (written + count) }
  | closes (c : Connection) (held : s.phase.current = [c]) :
      Moves requests s { s with phase := .replying c }
  | ends (c d : Connection) (held : s.phase.current = [c]) (same : d.makes = c.makes) :
      Moves requests s (s.finish d)

variable {requests : ι → ClientRequest} {s t : System ι}

theorem step_moves {event : Event ι} (moved : s.step requests event = some t) :
    Moves requests s t := by
  cases event <;> simp only [System.step] at moved
  case asks j connected =>
    split at moved <;> cases moved
    exact .client j .waiting _ fun found loaded => by cases loaded
  case opens j =>
    split at moved <;> cases moved
    exact .client j (.loaded _) s.backlog fun found loaded => by cases loaded; rfl
  case accepts arrived =>
    split at moved
    case h_2 => cases moved
    case h_1 sent backlog accepting waiting =>
      have idle : s.phase.current = [] := by rw [accepting]; rfl
      split at moved
      · cases moved
        exact .drops backlog _ idle rfl
      · split at moved <;> cases moved
        case h_1 parsed => exact .advances backlog _ idle rfl fun _ => parsed
        all_goals exact .drops backlog _ idle rfl
  case checks directoryMade =>
    split at moved
    case h_2 => cases moved
    case h_1 data model handling =>
      have idle : s.phase.current = [] := by rw [handling]; rfl
      split at moved
      · cases moved
        exact .drops s.backlog _ idle rfl
      · split at moved <;> cases moved
        · exact .finds data model handling
        · next absent =>
            refine .advances s.backlog _ idle rfl fun parsed => ?_
            rw [handling] at parsed
            exact ⟨parsed, absent⟩
  case converts converted =>
    split at moved
    case h_2 => cases moved
    case h_1 data model converting =>
      have idle : s.phase.current = [] := by rw [converting]; rfl
      split at moved <;> cases moved
      · refine .advances s.backlog _ idle rfl fun sound => ?_
        rw [converting] at sound
        exact sound
      · exact .drops s.backlog _ idle rfl
  case creates opened =>
    split at moved
    case h_2 => cases moved
    case h_1 data model bytes opening =>
      have idle : s.phase.current = [] := by rw [opening]; rfl
      split at moved <;> cases moved
      · exact .creates opening
      · exact .drops s.backlog _ idle rfl
  case writes count =>
    split at moved <;> cases moved
    case h_1 writing => exact .writes count writing
  case closes =>
    split at moved
    case h_2 => cases moved
    case h_1 data model bytes written writing =>
      have held : s.phase.current = [cutShort data bytes written] := by rw [writing]; rfl
      split at moved <;> cases moved
      · exact .closes _ held
      · exact .ends _ _ held rfl
  case replies delivered =>
    split at moved <;> cases moved
    case h_1 c replying =>
      have held : s.phase.current = [c] := by rw [replying]; rfl
      exact .ends c _ held rfl

end Moves

section Steps

variable {ι : Type} {requests : ι → ClientRequest} {files : Files} {s t : System ι}

theorem Consistent.server (consistent : Consistent requests files s)
    (clients : t.clients = s.clients) (grows : Grows s.files t.files)
    (directory : ∀ name, t.files name = (serve files t.sources).1.lookup name)
    (phase : t.phase.Sound fun name => (serve files t.served).1.lookup name) :
    Consistent requests files t := by
  refine ⟨directory, phase, fun i bytes loaded => ?_⟩
  rw [clients] at loaded
  obtain ⟨more, there⟩ := consistent.loaded i bytes loaded
  obtain ⟨last, grown⟩ := grows _ _ there
  exact ⟨more ++ last, by rw [grown, List.append_assoc]⟩

theorem Consistent.closed (consistent : Consistent requests files s) (idle : s.phase.current = [])
    (name : String) : s.files name = (serve files s.served).1.lookup name := by
  have own := consistent.directory name
  rwa [System.sources, idle, List.append_nil] at own

theorem Consistent.finish_unopened (consistent : Consistent requests files s)
    (idle : s.phase.current = []) {c : Connection} (unopened : c.opened = false) :
    Consistent requests files (s.finish c) := by
  refine consistent.server rfl (Grows.refl s.files) (fun name => ?_) trivial
  change s.files name = (serve files ((s.served ++ [c]) ++ [])).1.lookup name
  rw [List.append_nil, lookup_unopened unopened, consistent.closed idle]

theorem Consistent.finish_current (consistent : Consistent requests files s) {c d : Connection}
    (held : s.phase.current = [c]) (same : d.makes = c.makes) :
    Consistent requests files (s.finish d) := by
  refine consistent.server rfl (Grows.refl s.files) (fun name => ?_) trivial
  change s.files name = (serve files ((s.served ++ [d]) ++ [])).1.lookup name
  rw [List.append_nil, lookup_served, same, ← lookup_served]
  have own := consistent.directory name
  rwa [System.sources, held] at own

theorem Consistent.idle (consistent : Consistent requests files s) (idle : s.phase.current = [])
    {phase : Phase} (next : phase.current = [])
    (sound : phase.Sound fun name => (serve files s.served).1.lookup name) :
    Consistent requests files { s with phase := phase } := by
  refine consistent.server rfl (Grows.refl s.files) (fun name => ?_) sound
  change s.files name = (serve files (s.served ++ phase.current)).1.lookup name
  rw [next, List.append_nil, consistent.closed idle]

theorem Consistent.setFile (consistent : Consistent requests files s) {data : List Char}
    {model : TfliteModel} (parsed : parseRequest data = .generate model)
    (absent : (serve files s.served).1.lookup model.filename = none) (bytes : List Byte)
    (written : Nat)
    (others : ∀ name, name ≠ model.filename → s.files name = (serve files s.served).1.lookup name)
    (grows : ∀ there, s.files model.filename = some there →
      ∃ more, bytes.take written = there ++ more) :
    Consistent requests files
        { s.setFile model.filename (bytes.take written) with
          phase := .writing data model bytes written } ∧
      Grows s.files (s.setFile model.filename (bytes.take written)).files := by
  have growing : Grows s.files (s.setFile model.filename (bytes.take written)).files := by
    intro name there found
    by_cases own : name = model.filename
    · subst own
      obtain ⟨more, whole⟩ := grows there found
      exact ⟨more, by simp [System.setFile, whole]⟩
    · exact ⟨[], by simp [System.setFile, Function.update_of_ne own, found]⟩
  refine ⟨consistent.server rfl growing (fun name => ?_) ⟨parsed, absent⟩, growing⟩
  change (s.setFile model.filename (bytes.take written)).files name =
    (serve files (s.served ++ [cutShort data bytes written])).1.lookup name
  rw [lookup_cutShort parsed absent]
  by_cases own : name = model.filename
  · simp [System.setFile, own]
  · simp [System.setFile, own, others name own]

theorem Consistent.creates (consistent : Consistent requests files s) {data : List Char}
    {model : TfliteModel} {bytes : List Byte} (opening : s.phase = .opening data model bytes) :
    Consistent requests files
        { s.setFile model.filename [] with phase := .writing data model bytes 0 } ∧
      Grows s.files (s.setFile model.filename []).files := by
  have sound := consistent.phase
  have idle : s.phase.current = [] := by rw [opening]; rfl
  rw [opening] at sound
  obtain ⟨parsed, absent⟩ := sound
  apply consistent.setFile parsed absent bytes 0 fun name _ => consistent.closed idle name
  intro there found
  rw [consistent.closed idle] at found
  exact absurd (absent.symm.trans found) (Option.some_ne_none there).symm

theorem Consistent.writes (consistent : Consistent requests files s) {data : List Char}
    {model : TfliteModel} {bytes : List Byte} {written : Nat}
    (writing : s.phase = .writing data model bytes written) (count : Nat) :
    Consistent requests files
        { s.setFile model.filename
            (((s.files model.filename).getD []) ++ (bytes.drop written).take count) with
          phase := .writing data model bytes (written + count) } ∧
      Grows s.files (s.setFile model.filename
        (((s.files model.filename).getD []) ++ (bytes.drop written).take count)).files := by
  have sound := consistent.phase
  have directory := consistent.directory
  rw [System.sources] at directory
  rw [writing] at sound directory
  obtain ⟨parsed, absent⟩ := sound
  have known : ∀ name, s.files name = if name = model.filename then some (bytes.take written)
      else (serve files s.served).1.lookup name := by
    intro name
    rw [directory, Phase.current, lookup_cutShort parsed absent]
  have own : s.files model.filename = some (bytes.take written) := by simp [known]
  have longer : bytes.take written ++ (bytes.drop written).take count =
      bytes.take (written + count) := List.take_add.symm
  rw [own, Option.getD_some, longer]
  apply consistent.setFile parsed absent bytes (written + count)
  · intro name other
    rw [known, if_neg other]
  · intro there found
    rw [own] at found
    cases found
    exact ⟨_, longer.symm⟩

variable [DecidableEq ι]

theorem Consistent.moves (consistent : Consistent requests files s) (moves : Moves requests s t) :
    Consistent requests files t ∧ Grows s.files t.files := by
  cases moves with
  | client j next backlog gives =>
      refine ⟨⟨consistent.directory, consistent.phase, fun i bytes loaded => ?_⟩,
        Grows.refl s.files⟩
      dsimp only at loaded ⊢
      by_cases own : i = j
      · subst own
        rw [Function.update_self] at loaded
        exact ⟨[], by rw [List.append_nil, ← gives _ loaded]⟩
      · rw [Function.update_of_ne own] at loaded
        exact consistent.loaded i bytes loaded
  | drops backlog c idle unopened =>
      have taken : Consistent requests files { s with backlog := backlog } :=
        ⟨consistent.directory, consistent.phase, consistent.loaded⟩
      exact ⟨taken.finish_unopened idle unopened, Grows.refl s.files⟩
  | advances backlog phase idle next sound =>
      have taken : Consistent requests files { s with backlog := backlog } :=
        ⟨consistent.directory, consistent.phase, consistent.loaded⟩
      have held : s.files = fun name => (serve files s.served).1.lookup name :=
        funext (consistent.closed idle)
      rw [held] at sound
      exact ⟨taken.idle idle next (sound consistent.phase), Grows.refl s.files⟩
  | finds data model handling =>
      have idle : s.phase.current = [] := by rw [handling]; rfl
      refine ⟨consistent.server rfl (Grows.refl s.files) (fun name => ?_) trivial,
        Grows.refl s.files⟩
      change s.files name = (serve files (s.served ++ [unconverted data])).1.lookup name
      rw [lookup_unopened rfl, consistent.closed idle]
  | creates opening => exact consistent.creates opening
  | writes count writing => exact consistent.writes writing count
  | closes c held =>
      refine ⟨consistent.server rfl (Grows.refl s.files) (fun name => ?_) trivial,
        Grows.refl s.files⟩
      rw [consistent.directory, System.sources, held]
      rfl
  | ends c d held same => exact ⟨consistent.finish_current held same, Grows.refl s.files⟩

end Steps

section Runs

variable {ι : Type} [DecidableEq ι] {requests : ι → ClientRequest} {files : Files} {s t : System ι}
  {events : List (Event ι)}

omit [DecidableEq ι] in
theorem start_consistent (requests : ι → ClientRequest) (files : Files) :
    Consistent requests files (System.start files : System ι) :=
  ⟨fun _ => rfl, trivial, fun _ _ loaded => by cases loaded⟩

theorem Consistent.after (consistent : Consistent requests files s)
    (reached : Runs.after (System.step requests) s events = some t) :
    Consistent requests files t ∧ Grows s.files t.files := by
  apply Runs.after_kept (I := fun t => Consistent requests files t ∧ Grows s.files t.files) _
    ⟨consistent, Grows.refl s.files⟩ reached
  rintro middle event next ⟨held, grown⟩ moved
  obtain ⟨kept, grows⟩ := held.moves (step_moves moved)
  exact ⟨kept, grown.trans grows⟩

theorem path_filename (r : ClientRequest) : r.path = r.model.filename :=
  (filename_modelFilename r.M r.K r.N r.backendChoice).symm

-- Clients and the server in any order, with requests cut short, conversions that fail and files
-- read while they are written: the directory is always one that the server alone could have left,
-- and what a client has loaded is the beginning of what is there now, which was there from the
-- start or was converted for its own sizes and backend.
theorem clients_load (requests : ι → ClientRequest) (files : Files) (events : List (Event ι))
    (reached : Runs.after (System.step requests) (.start files) events = some s) :
    (∀ name, s.files name = (serve files s.sources).1.lookup name) ∧
      ∀ i bytes, s.clients i = .loaded (some bytes) → ∃ more,
        s.files (requests i).path = some (bytes ++ more) ∧
          (files.lookup (requests i).path = some (bytes ++ more) ∨
            ∃ c ∈ s.sources, ∃ whole, c.asks (requests i).model ∧
              c.converted (requests i).model = some whole ∧
                bytes ++ more = whole.take c.written) := by
  have consistent := ((start_consistent requests files).after reached).1
  refine ⟨consistent.directory, fun i bytes loaded => ?_⟩
  obtain ⟨more, there⟩ := consistent.loaded i bytes loaded
  refine ⟨more, there, ?_⟩
  have held := there
  rw [consistent.directory, path_filename, ← List.take_length (l := s.sources)] at held
  rw [path_filename]
  refine (maker_before held).imp_right ?_
  rintro ⟨j, _, c, whole, found, asks, given, written⟩
  exact ⟨c, List.mem_of_getElem? found, whole, asks, given, written⟩

end Runs

section Sample

def sampleRequests (_ : Bool) : ClientRequest := { M := 1, K := 2, N := 3, backendChoice := 1 }

def sampleRun : List (Event Bool) :=
  [.asks true true, .asks false true, .accepts (some 1024), .checks true, .converts (some [7, 9]),
    .creates true, .writes 1, .opens true, .writes 1, .closes, .replies true, .accepts (some 1024),
    .checks true, .replies true, .opens false]

theorem sampleRun_loads : ∃ s, Runs.after (System.step sampleRequests) (.start []) sampleRun = some s ∧
    s.clients true = .loaded (some [7]) ∧ s.clients false = .loaded (some [7, 9]) := by
  have ends : ((Runs.after (System.step sampleRequests) (.start []) sampleRun).map fun s =>
      (s.clients true, s.clients false)) =
        some (.loaded (some [7]), .loaded (some [7, 9])) := by
    decide +kernel
  obtain ⟨s, reached, both⟩ := Option.map_eq_some_iff.mp ends
  exact ⟨s, reached, congrArg Prod.fst both, congrArg Prod.snd both⟩

theorem clients_load_sample :
    ∃ s, Runs.after (System.step sampleRequests) (.start []) sampleRun = some s ∧
      s.clients true = .loaded (some [7]) ∧ s.clients false = .loaded (some [7, 9]) ∧
      (∀ name, s.files name = (serve [] s.sources).1.lookup name) ∧
      ∀ i bytes, s.clients i = .loaded (some bytes) → ∃ more,
        s.files (sampleRequests i).path = some (bytes ++ more) ∧
          (([] : Files).lookup (sampleRequests i).path = some (bytes ++ more) ∨
            ∃ c ∈ s.sources, ∃ whole, c.asks (sampleRequests i).model ∧
              c.converted (sampleRequests i).model = some whole ∧
                bytes ++ more = whole.take c.written) := by
  obtain ⟨s, reached, early, late⟩ := sampleRun_loads
  exact ⟨s, reached, early, late, clients_load sampleRequests [] sampleRun reached⟩

end Sample

end NpuMatmul.GenerationServer
