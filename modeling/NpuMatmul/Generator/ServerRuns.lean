import NpuMatmul.Generator.Protocol
import NpuMatmul.Shared.TableWrites

set_option autoImplicit false

namespace NpuMatmul.GenerationServer

open FirstWrites TableWrites

abbrev Byte := BitVec 8

abbrev Files := List (String × List Byte)

-- How one pass of the loop fares: data is what recv and decode give, none where accept, recv or
-- decode raises; converted is what the converter gives for a model, and none where it raises;
-- written is how many of its bytes reach the file.
structure Connection where
  data : Option (List Char)
  directoryMade : Bool
  converted : TfliteModel → Option (List Byte)
  opened : Bool
  written : Nat
  delivered : Bool

def generateTflite (files : Files) (model : TfliteModel) (c : Connection) : Files × Bool :=
  if !c.directoryMade then (files, false)
  else
    match files.lookup model.filename with
    | some _ => (files, true)
    | none =>
        match c.converted model with
        | none => (files, false)
        | some bytes =>
            if c.opened then
              ((model.filename, bytes.take c.written) :: files, decide (bytes.length ≤ c.written))
            else (files, false)

-- The files after one connection, and whether the client was sent OK. Every exception is caught.
def handle (files : Files) (c : Connection) : Files × Bool :=
  match c.data with
  | none => (files, false)
  | some data =>
      match parseRequest data with
      | .generate model =>
          let (files, returned) := generateTflite files model c
          (files, returned && c.delivered)
      | .ignored | .raised => (files, false)

def serve : Files → List Connection → Files × List Bool
  | files, [] => (files, [])
  | files, c :: later =>
      let (next, ok) := handle files c
      let (last, replies) := serve next later
      (last, ok :: replies)

def Connection.asks (c : Connection) (model : TfliteModel) : Prop :=
  c.data.map parseRequest = some (.generate model)

def Connection.makes (c : Connection) : Option (String × List Byte) :=
  match c.data.map parseRequest with
  | some (.generate model) =>
      if c.directoryMade && c.opened then
        (c.converted model).map fun bytes => (model.filename, bytes.take c.written)
      else none
  | _ => none

section Handling

variable {c : Connection} {files : Files} {model : TfliteModel}

theorem handle_asks (asks : c.asks model) : handle files c =
    ((generateTflite files model c).1, (generateTflite files model c).2 && c.delivered) := by
  obtain ⟨data, some_data, parsed⟩ := Option.map_eq_some_iff.mp asks
  simp [handle, some_data, parsed]

theorem handle_other (other : ∀ model, ¬ c.asks model) : handle files c = (files, false) := by
  unfold handle
  cases given : c.data with
  | none => rfl
  | some data =>
      simp only
      split
      next model parsed => exact absurd (by simp [Connection.asks, given, parsed]) (other model)
      next => rfl
      next => rfl

theorem makes_asks (asks : c.asks model) : c.makes =
    if c.directoryMade && c.opened then
      (c.converted model).map fun bytes => (model.filename, bytes.take c.written)
    else none := by
  have parsed : c.data.map parseRequest = some (.generate model) := asks
  simp only [Connection.makes, parsed]

theorem makes_other (other : ∀ model, ¬ c.asks model) : c.makes = none := by
  unfold Connection.makes
  split
  next model parsed => exact absurd parsed (other model)
  next => rfl

theorem handle_files (files : Files) (c : Connection) : (handle files c).1 = record files c.makes := by
  by_cases asked : ∃ model, c.asks model
  · obtain ⟨model, asks⟩ := asked
    rw [handle_asks asks, makes_asks asks]
    unfold generateTflite
    cases c.directoryMade with
    | false => rfl
    | true =>
        cases found : files.lookup model.filename <;> cases c.converted model <;>
          cases c.opened <;> simp [record, found]
  · have other : ∀ model, ¬ c.asks model := fun model asks => asked ⟨model, asks⟩
    rw [handle_other other, makes_other other]
    rfl

theorem handle_ok (ok : (handle files c).2 = true) : ∃ model, c.asks model ∧
    (files.lookup model.filename ≠ none ∨ ∃ bytes, c.converted model = some bytes ∧
      c.makes = some (model.filename, bytes) ∧ bytes.take c.written = bytes) := by
  by_cases asked : ∃ model, c.asks model
  · obtain ⟨model, asks⟩ := asked
    refine ⟨model, asks, ?_⟩
    rw [handle_asks asks] at ok
    have returned : (generateTflite files model c).2 = true := by
      simp only [Bool.and_eq_true] at ok
      exact ok.1
    unfold generateTflite at returned
    cases made : c.directoryMade with
    | false => simp [made] at returned
    | true =>
        cases found : files.lookup model.filename with
        | some bytes => exact .inl (by simp)
        | none =>
            cases given : c.converted model with
            | none => simp [made, found, given] at returned
            | some bytes =>
                cases opened : c.opened with
                | false => simp [made, found, given, opened] at returned
                | true =>
                    have whole : bytes.take c.written = bytes := by
                      simpa [made, found, given, opened] using returned
                    refine .inr ⟨bytes, rfl, ?_, whole⟩
                    rw [makes_asks asks]
                    simp [made, opened, given, whole]
  · have other : ∀ model, ¬ c.asks model := fun model asks => asked ⟨model, asks⟩
    simp [handle_other other] at ok

theorem asks_of_under {name : String} {bytes : List Byte} (made : under c.makes name = some bytes) :
    ∃ model whole, c.asks model ∧ model.filename = name ∧ c.converted model = some whole ∧
      bytes = whole.take c.written := by
  by_cases asked : ∃ model, c.asks model
  · obtain ⟨model, asks⟩ := asked
    rw [makes_asks asks] at made
    cases ready : c.directoryMade && c.opened with
    | false => simp [ready, under] at made
    | true =>
        cases given : c.converted model with
        | none => simp [ready, given, under] at made
        | some whole =>
            simp only [ready, given, under, if_true, Option.map_some, Option.bind_some,
              Option.ite_none_right_eq_some, Option.some.injEq] at made
            exact ⟨model, whole, asks, made.1, given, made.2.symm⟩
  · have other : ∀ model, ¬ c.asks model := fun model asks => asked ⟨model, asks⟩
    simp [makes_other other, under] at made

end Handling

section Runs

variable {files : Files} {connections : List Connection} {name : String} {bytes : List Byte}

theorem serve_files (files : Files) (connections : List Connection) :
    (serve files connections).1 =
      connections.foldl (fun files c => record files c.makes) files := by
  induction connections generalizing files with
  | nil => rfl
  | cons c later ih =>
      rw [List.foldl_cons, ← handle_files, ← ih]
      rfl

theorem serve_lookup (files : Files) (connections : List Connection) (name : String) :
    (serve files connections).1.lookup name =
      (files.lookup name).or (connections.findSome? fun c => under c.makes name) := by
  rw [serve_files]
  exact lookup_records Connection.makes files connections name

theorem serve_length (files : Files) (connections : List Connection) :
    (serve files connections).2.length = connections.length := by
  induction connections generalizing files with
  | nil => rfl
  | cons c later ih => exact congrArg (· + 1) (ih (handle files c).1)

theorem serve_reply (files : Files) (connections : List Connection) (i : Nat) :
    (serve files connections).2[i]? = connections[i]?.map fun c =>
      (handle (serve files (connections.take i)).1 c).2 := by
  induction connections generalizing files i with
  | nil => simp [serve]
  | cons c later ih =>
      cases i with
      | zero => rfl
      | succ i => exact ih (handle files c).1 i

theorem lookup_kept (i : Nat)
    (there : (serve files (connections.take i)).1.lookup name = some bytes) :
    (serve files connections).1.lookup name = some bytes := by
  rw [serve_lookup] at there ⊢
  rw [← List.take_append_drop i connections, List.findSome?_append, ← Option.or_assoc, there,
    Option.some_or]

theorem maker_before {i : Nat} {model : TfliteModel}
    (there : (serve files (connections.take i)).1.lookup model.filename = some bytes) :
    files.lookup model.filename = some bytes ∨ ∃ j < i, ∃ maker whole,
      connections[j]? = some maker ∧ maker.asks model ∧ maker.converted model = some whole ∧
        bytes = whole.take maker.written := by
  rw [serve_lookup] at there
  cases earlier : files.lookup model.filename with
  | some held =>
      rw [earlier, Option.some_or] at there
      exact .inl there
  | none =>
      rw [earlier, Option.none_or] at there
      obtain ⟨maker, member, made⟩ := List.exists_of_findSome?_eq_some there
      obtain ⟨j, below, found⟩ := List.getElem_of_mem member
      obtain ⟨other, whole, asks, named, given, written⟩ := asks_of_under made
      obtain rfl := filename_injective named
      have short : j < i := by
        rw [List.length_take] at below
        omega
      have place : connections[j]? = some maker := by
        rw [← List.getElem?_take_of_lt short, List.getElem?_eq_getElem below, found]
      exact .inr ⟨j, short, maker, whole, place, asks, given, written⟩

-- Whatever arrives of each request, and whatever fails: the server goes on to the last connection,
-- and every file stays what the first connection to make it wrote. OK is sent only where the file
-- of the requested model is there to stay, written for that same model, and in full if by the
-- connection itself; a file that an earlier one cut short is never made again.
theorem server_runs (files : Files) (connections : List Connection) :
    (serve files connections).2.length = connections.length ∧
      (∀ name, (serve files connections).1.lookup name =
        (files.lookup name).or (connections.findSome? fun c => under c.makes name)) ∧
      ∀ (i : Nat) (c : Connection), connections[i]? = some c →
        (serve files connections).2[i]? = some true → ∃ (model : TfliteModel) (bytes : List Byte),
          c.asks model ∧ (serve files connections).1.lookup model.filename = some bytes ∧
          (files.lookup model.filename = some bytes ∨
            ∃ j ≤ i, ∃ (maker : Connection) (whole : List Byte), connections[j]? = some maker ∧
              maker.asks model ∧ maker.converted model = some whole ∧
                bytes = whole.take maker.written ∧ (j = i → bytes = whole)) := by
  refine ⟨serve_length files connections, serve_lookup files connections, ?_⟩
  intro i c place replied
  rw [serve_reply, place] at replied
  have ok : (handle (serve files (connections.take i)).1 c).2 = true := Option.some.inj replied
  obtain ⟨model, asks, served⟩ := handle_ok ok
  cases there : (serve files (connections.take i)).1.lookup model.filename with
  | some bytes =>
      refine ⟨model, bytes, asks, lookup_kept i there, (maker_before there).imp_right ?_⟩
      rintro ⟨j, earlier, maker, whole, found, asked, given, written⟩
      exact ⟨j, earlier.le, maker, whole, found, asked, given, written,
        fun same => absurd same earlier.ne⟩
  | none =>
      obtain present | ⟨bytes, given, made, whole⟩ := served
      · exact absurd there present
      · have own : (serve files connections).1.lookup model.filename = some bytes := by
          have below := (List.getElem?_eq_some_iff.mp place).1
          have split : connections.drop i = c :: connections.drop (i + 1) := by
            rw [List.drop_eq_getElem_cons below]
            rw [List.getElem?_eq_getElem below] at place
            rw [Option.some.inj place]
          rw [serve_lookup] at there ⊢
          rw [← List.take_append_drop i connections, List.findSome?_append, ← Option.or_assoc,
            there, Option.none_or, split, List.findSome?_cons, made]
          simp [under]
        exact ⟨model, bytes, asks, own, .inr ⟨i, le_rfl, c, bytes, place, asks, given, whole.symm,
          fun _ => rfl⟩⟩

-- The writing of a file of three bytes stops after one, and the next client is sent OK.
example :
    let converted : TfliteModel → Option (List Byte) := fun _ => some [1, 2, 3]
    let request := "generate 1 2 3 1\n".toList
    serve []
        [⟨some request, true, converted, true, 1, true⟩,
          ⟨some request, true, converted, true, 3, true⟩] =
      ([("matmuls/matmul_a16w8_1x2_2x3.tflite", [1])], [false, true]) := by
  decide

end Runs

end NpuMatmul.GenerationServer
