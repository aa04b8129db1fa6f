import NpuMatmul.Engine.RequestSpec
import NpuMatmul.Shared.Words

set_option autoImplicit false

namespace NpuMatmul

def generationRequest (M K N : Nat) (backendChoice : Int) : String :=
  s!"generate {M} {K} {N} {backendChoice}\n"

structure TfliteModel where
  M : Int
  K : Int
  N : Int
  isGpu : Bool
deriving DecidableEq, Repr

def TfliteModel.filename (model : TfliteModel) : String :=
  if model.isGpu then
    s!"matmuls/matmul_fp32_{model.M}x{model.K}_{model.K}x{model.N}.tflite"
  else s!"matmuls/matmul_a16w8_{model.M}x{model.K}_{model.K}x{model.N}.tflite"

abbrev Matmuls := List (String × TfliteModel)

-- The files after generate_tflite and the name it returns: a file that exists is left as it is, and
-- a conversion that fails raises before there is a file.
def Matmuls.generateTflite (files : Matmuls) (model : TfliteModel) (converts : Bool) :
    Matmuls × Option String :=
  match files.lookup model.filename with
  | some _ => (files, some model.filename)
  | none =>
      if converts then ((model.filename, model) :: files, some model.filename) else (files, none)

inductive Parsed where
  | ignored
  | raised
  | generate (model : TfliteModel)
deriving DecidableEq, Repr

def command : List Char := "generate".toList

-- The body of the accept loop, up to the call of generate_tflite.
def parseRequest (data : List Char) : Parsed :=
  if command.isPrefixOf data then
    match Words.split (Words.strip data) with
    | _ :: first :: second :: third :: rest =>
        match Words.int first, Words.int second, Words.int third, rest with
        | some M, some K, some N, [fourth] =>
            match Words.int fourth with
            | some choice => .generate { M := M, K := K, N := N, isGpu := decide (choice = 3) }
            | none => .raised
        | some M, some K, some N, _ => .generate { M := M, K := K, N := N, isGpu := false }
        | _, _, _, _ => .raised
    | _ => .ignored
  else .ignored

-- One connection, with the whole request in one recv.
def Matmuls.handle (files : Matmuls) (data : List Char) (converts : Bool) : Matmuls :=
  match parseRequest data with
  | .generate model => (files.generateTflite model converts).1
  | .ignored | .raised => files

def Matmuls.serve (files : Matmuls) (connections : List (List Char × Bool)) : Matmuls :=
  connections.foldl (fun files connection => files.handle connection.1 connection.2) files

theorem Matmuls.serve_concat (files : Matmuls) (connections : List (List Char × Bool))
    (data : List Char) (converts : Bool) :
    files.serve (connections ++ [(data, converts)]) =
      (files.serve connections).handle data converts := by
  simp [Matmuls.serve]

section RoundTrip

open Words

theorem generationRequest_words (M K N : Nat) (backendChoice : Int) :
    (generationRequest M K N backendChoice).toList =
      unwords [command, numeral M, numeral K, numeral N, numeral backendChoice] ++ ['\n'] := by
  have texts : "generate ".toList = command ++ [' '] ∧ " ".toList = [' '] ∧
      "\n".toList = ['\n'] := by decide
  change ("generate " ++ toString M ++ " " ++ toString K ++ " " ++ toString N ++ " " ++
    toString backendChoice ++ "\n").toList = _
  simp only [String.toList_append, texts.1, texts.2.1, texts.2.2, unwords, List.append_assoc,
    List.cons_append, List.nil_append]
  rfl

theorem parseRequest_generationRequest (M K N : Nat) (backendChoice : Int) :
    parseRequest (generationRequest M K N backendChoice).toList =
      .generate { M := M, K := K, N := N, isGpu := decide (backendChoice = 3) } := by
  have words : ∀ word ∈ [command, numeral M, numeral K, numeral N, numeral backendChoice],
      IsWord word := by
    have first : IsWord command := ⟨by decide, solid_of_all rfl⟩
    simp [first, numeral_isWord]
  have parts : split (strip (generationRequest M K N backendChoice).toList) =
      [command, numeral M, numeral K, numeral N, numeral backendChoice] := by
    rw [split_strip, generationRequest_words, split, splitFrom_append_spaces (by simp [isSpace])]
    exact split_unwords words
  have prefixed : command.isPrefixOf (generationRequest M K N backendChoice).toList = true := by
    rw [generationRequest_words, List.isPrefixOf_iff_prefix, unwords, List.append_assoc]
    · exact List.prefix_append _ _
    · exact List.cons_ne_nil _ _
  simp only [parseRequest, prefixed, if_true, parts, int_numeral]

end RoundTrip

section Filenames

open Words

theorem filename_modelFilename (M K N : Nat) (backendChoice : Int) :
    TfliteModel.filename { M := M, K := K, N := N, isGpu := decide (backendChoice = 3) } =
      modelFilename M K N backendChoice := by
  have printed (n : Nat) : toString (n : Int) = toString n := rfl
  by_cases gpu : backendChoice = 3 <;> simp only [TfliteModel.filename, modelFilename, gpu, printed,
    decide_true, decide_false, if_true, if_false, Bool.false_eq_true]

theorem separator_notMem_numeral {separator : Char} (sign : separator ≠ '-')
    (digit : separator.isDigit = false) (z : Int) : separator ∉ numeral z := by
  intro member
  obtain same | isDigit := mem_numeral member
  · exact sign same
  · rw [digit] at isDigit
    cases isDigit

def shapeChars (M K N : Int) : List Char :=
  numeral M ++ 'x' :: (numeral K ++ '_' :: (numeral K ++ 'x' :: (numeral N ++ ".tflite".toList)))

theorem filename_chars (model : TfliteModel) : model.filename.toList =
    (if model.isGpu then "matmuls/matmul_fp32_" else "matmuls/matmul_a16w8_").toList ++
      shapeChars model.M model.K model.N := by
  have texts : "x".toList = ['x'] ∧ "_".toList = ['_'] := by decide
  unfold TfliteModel.filename shapeChars
  split <;> simp only [String.toList_append, List.append_assoc]
  all_goals
    change _ ++ (numeral model.M ++ ("x".toList ++ (numeral model.K ++ ("_".toList ++
      (numeral model.K ++ ("x".toList ++ (numeral model.N ++ _))))))) = _
    rw [texts.1, texts.2]
    rfl

theorem shapeChars_injective {M K N m k n : Int} (same : shapeChars M K N = shapeChars m k n) :
    M = m ∧ K = k ∧ N = n := by
  have apart := fun (separator : Char) (sign : separator ≠ '-')
    (digit : separator.isDigit = false) => separator_notMem_numeral sign digit
  have x := apart 'x' (by decide) (by decide)
  have line := apart '_' (by decide) (by decide)
  have dot := apart '.' (by decide) (by decide)
  obtain ⟨rows, rest⟩ := Keys.split_first (x M) (x m) same
  obtain ⟨inner, rest⟩ := Keys.split_first (line K) (line k) rest
  obtain ⟨_, rest⟩ := Keys.split_first (x K) (x k) rest
  obtain ⟨columns, _⟩ := Keys.split_first (dot N) (dot n) rest
  exact ⟨numeral_injective rows, numeral_injective inner, numeral_injective columns⟩

-- The character at place 15 tells the element types apart.
theorem element_apart (rest others : List Char) :
    "matmuls/matmul_a16w8_".toList ++ rest ≠ "matmuls/matmul_fp32_".toList ++ others := by
  intro same
  have letter := congrArg (fun chars : List Char => chars[15]?) same
  rw [List.getElem?_append_left (by decide), List.getElem?_append_left (by decide)] at letter
  revert letter
  decide

theorem filename_injective {model other : TfliteModel} (same : model.filename = other.filename) :
    model = other := by
  have chars := congrArg String.toList same
  rw [filename_chars, filename_chars] at chars
  obtain ⟨M, K, N, isGpu⟩ := model
  obtain ⟨m, k, n, otherGpu⟩ := other
  cases isGpu <;> cases otherGpu
  · obtain ⟨rfl, rfl, rfl⟩ := shapeChars_injective (List.append_cancel_left chars)
    rfl
  · exact absurd chars (element_apart _ _)
  · exact absurd chars.symm (element_apart _ _)
  · obtain ⟨rfl, rfl, rfl⟩ := shapeChars_injective (List.append_cancel_left chars)
    rfl

end Filenames

section Directory

variable {files : Matmuls} {model : TfliteModel}

-- Every file holds the model it is named after.
def Matmuls.Named (files : Matmuls) : Prop := ∀ file ∈ files, file.1 = file.2.filename

theorem Matmuls.Named.generateTflite (named : files.Named) (model : TfliteModel)
    (converts : Bool) : Matmuls.Named (files.generateTflite model converts).1 := by
  unfold Matmuls.generateTflite
  cases files.lookup model.filename with
  | some found => exact named
  | none =>
      cases converts with
      | false => exact named
      | true => exact List.forall_mem_cons.mpr ⟨rfl, named⟩

theorem Matmuls.Named.handle (named : files.Named) (data : List Char) (converts : Bool) :
    Matmuls.Named (files.handle data converts) := by
  unfold Matmuls.handle
  split
  · exact named.generateTflite _ converts
  · exact named
  · exact named

theorem Matmuls.Named.serve (named : files.Named) (connections : List (List Char × Bool)) :
    Matmuls.Named (files.serve connections) := by
  induction connections generalizing files with
  | nil => exact named
  | cons connection later ih => exact ih (named.handle connection.1 connection.2)

theorem Matmuls.Named.lookup (named : files.Named) {found : TfliteModel}
    (present : files.lookup model.filename = some found) : found = model :=
  (filename_injective (named _ (mem_of_lookup present))).symm

theorem Matmuls.Named.generated (named : files.Named) {converts : Bool}
    (made : converts = true ∨ files.lookup model.filename ≠ none) :
    (files.generateTflite model converts).2 = some model.filename ∧
      (files.generateTflite model converts).1.lookup model.filename = some model := by
  unfold Matmuls.generateTflite
  cases present : files.lookup model.filename with
  | some found =>
      obtain rfl := named.lookup present
      exact ⟨rfl, present⟩
  | none =>
      have converted : converts = true := made.resolve_right (not_not.mpr present)
      simp [converted]

theorem Matmuls.generateTflite_other (files : Matmuls) (converts : Bool) {name : String}
    (other : name ≠ model.filename) :
    (files.generateTflite model converts).1.lookup name = files.lookup name := by
  unfold Matmuls.generateTflite
  cases files.lookup model.filename with
  | some found => rfl
  | none =>
      cases converts with
      | false => rfl
      | true => simp [List.lookup_cons, beq_false_of_ne other]

end Directory

def requestedModel (M K N : Nat) (backendChoice : Int) : TfliteModel :=
  { M := M, K := K, N := N, isGpu := decide (backendChoice = 3) }

-- What a request leaves in a directory: the file that create_model opens holds the model asked for,
-- unless it was absent and its conversion raises, and no other file is touched.
structure Generated (files next : Matmuls) (name : String) (model : TfliteModel)
    (converts : Bool) : Prop where
  written : converts = true ∨ files.lookup name ≠ none → next.lookup name = some model
  cached : ∀ found, next.lookup name = some found → found = model
  others : ∀ other, other ≠ name → next.lookup other = files.lookup other

theorem handle_generationRequest {files : Matmuls} (named : files.Named) (M K N : Nat)
    (backendChoice : Int) (converts : Bool) :
    Generated files (files.handle (generationRequest M K N backendChoice).toList converts)
      (modelFilename M K N backendChoice) (requestedModel M K N backendChoice) converts := by
  have handled : files.handle (generationRequest M K N backendChoice).toList converts =
      (files.generateTflite (requestedModel M K N backendChoice) converts).1 := by
    rw [Matmuls.handle, parseRequest_generationRequest]
    rfl
  rw [handled, ← filename_modelFilename]
  constructor
  · exact fun made => (named.generated made).2
  · exact fun found present => (named.generateTflite _ converts).lookup present
  · exact fun name other => files.generateTflite_other converts other

theorem client_generator_agree (M K N : Nat) (backendChoice : Int) :
    parseRequest (generationRequest M K N backendChoice).toList =
        .generate (requestedModel M K N backendChoice) ∧
      (requestedModel M K N backendChoice).filename = modelFilename M K N backendChoice ∧
      (∀ (files : Matmuls) (converts : Bool) (name : String),
        (files.generateTflite (requestedModel M K N backendChoice) converts).2 = some name →
          name = modelFilename M K N backendChoice) ∧
      (∀ (m k n : Nat) (otherChoice : Int),
        modelFilename M K N backendChoice = modelFilename m k n otherChoice →
          M = m ∧ K = k ∧ N = n ∧ (backendChoice = 3 ↔ otherChoice = 3)) ∧
      ∀ (connections : List (List Char × Bool)) (converts : Bool),
        Generated (Matmuls.serve [] connections)
          (Matmuls.serve [] (connections ++
            [((generationRequest M K N backendChoice).toList, converts)]))
          (modelFilename M K N backendChoice) (requestedModel M K N backendChoice) converts := by
  refine ⟨parseRequest_generationRequest M K N backendChoice,
    filename_modelFilename M K N backendChoice, ?_, ?_, ?_⟩
  · intro files converts name returned
    rw [← filename_modelFilename]
    unfold Matmuls.generateTflite at returned
    split at returned
    · exact (Option.some.inj returned).symm
    · split at returned
      · exact (Option.some.inj returned).symm
      · cases returned
  · intro m k n otherChoice same
    rw [← filename_modelFilename, ← filename_modelFilename] at same
    simpa using filename_injective same
  · intro connections converts
    have named : Matmuls.Named [] := nofun
    have handled := handle_generationRequest (named.serve connections) M K N backendChoice converts
    rwa [Matmuls.serve_concat]

end NpuMatmul
