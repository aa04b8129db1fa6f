import Mathlib.Algebra.Order.Ring.Int
import Mathlib.Data.List.TakeWhile

set_option autoImplicit false

-- Formatted input of a C++ stream in the C locale, and the words of a text.
namespace Extraction

abbrev Byte := BitVec 8

def isSpace (b : Byte) : Bool := (9 ≤ b.toNat && b.toNat ≤ 13) || b.toNat == 32

def isDigit (b : Byte) : Bool := 48 ≤ b.toNat && b.toNat ≤ 57

def ascii (text : String) : List Byte := text.toList.map fun c => BitVec.ofNat 8 c.toNat

-- good is false from the end of the text or a failure on. Every extraction is then without effect.
structure Stream where
  rest : List Byte
  good : Bool

def word (s : Stream) : List Byte × Stream :=
  if !s.good then ([], s)
  else
    let rest := s.rest.dropWhile isSpace
    let after := rest.dropWhile fun b => !isSpace b
    (rest.takeWhile fun b => !isSpace b, { rest := after, good := decide (after ≠ []) })

def number (digits : List Byte) : Nat := digits.foldl (fun n d => 10 * n + (d.toNat - 48)) 0

def unsign : List Byte → Int × List Byte
  | [] => (1, [])
  | b :: rest =>
      if b.toNat = 45 then (-1, rest) else if b.toNat = 43 then (1, rest) else (1, b :: rest)

-- The int is left as it is at the end of the text, 0 where there are no digits, and the nearest int
-- where the number is out of range.
def int (value : Int) (s : Stream) : Int × Stream :=
  if !s.good then (value, s)
  else
    let rest := s.rest.dropWhile isSpace
    if rest = [] then (value, { rest := rest, good := false })
    else
      let (sign, body) := unsign rest
      let digits := body.takeWhile isDigit
      let after := body.dropWhile isDigit
      let read := sign * number digits
      if digits = [] then (0, { rest := after, good := false })
      else if read < -2 ^ 31 then (-2 ^ 31, { rest := after, good := false })
      else if 2 ^ 31 ≤ read then (2 ^ 31 - 1, { rest := after, good := false })
      else (read, { rest := after, good := decide (after ≠ []) })

def wordsFrom (current : List Byte) : List Byte → List (List Byte)
  | [] => if current = [] then [] else [current]
  | b :: rest =>
      if isSpace b then
        if current = [] then wordsFrom [] rest else current :: wordsFrom [] rest
      else wordsFrom (current ++ [b]) rest

def words (text : List Byte) : List (List Byte) := wordsFrom [] text

def literal (word : List Byte) : Option Int :=
  let (sign, digits) := unsign word
  if digits ≠ [] ∧ digits.all isDigit then some (sign * number digits) else none

section Words

theorem wordsFrom_eq {current : List Byte} (nonempty : current ≠ []) (text : List Byte) :
    wordsFrom current text = (current ++ text.takeWhile fun b => !isSpace b) ::
      words (text.dropWhile fun b => !isSpace b) := by
  induction text generalizing current with
  | nil => simp [wordsFrom, words, nonempty]
  | cons b rest ih =>
      by_cases blank : isSpace b
      · simp [wordsFrom, words, nonempty, blank]
      · have longer : current ++ [b] ≠ [] := by simp
        simp [wordsFrom, blank, ih longer]

theorem words_dropWhile (text : List Byte) : words (text.dropWhile isSpace) = words text := by
  induction text with
  | nil => rfl
  | cons b rest ih =>
      by_cases blank : isSpace b
      · simpa [words, wordsFrom, blank] using ih
      · simp [blank]

theorem words_solid {text : List Byte} (nonempty : text ≠ [])
    (solid : ∀ b, text.head? = some b → isSpace b = false) :
    words text = (text.takeWhile fun b => !isSpace b) ::
      words (text.dropWhile fun b => !isSpace b) := by
  cases text with
  | nil => exact absurd rfl nonempty
  | cons b rest =>
      have own := solid b rfl
      have started := wordsFrom_eq (List.cons_ne_nil b []) rest
      simpa [words, wordsFrom, own] using started

-- What is left of some words where the text ends early.
def Cut : List (List Byte) → List (List Byte) → Prop
  | [], _ => True
  | _ :: _, [] => False
  | [first], whole :: _ => first <+: whole
  | first :: next :: rest, whole :: others => first = whole ∧ Cut (next :: rest) others

theorem Cut.cons {first : List Byte} {rest others : List (List Byte)} (cut : Cut rest others) :
    Cut (first :: rest) (first :: others) := by
  cases rest with
  | nil => exact List.prefix_rfl
  | cons next rest => exact ⟨rfl, cut⟩

theorem wordsFrom_cut (current text later : List Byte) :
    Cut (wordsFrom current text) (wordsFrom current (text ++ later)) := by
  induction text generalizing current with
  | nil =>
      by_cases empty : current = []
      · simp [wordsFrom, empty, Cut]
      · have whole := wordsFrom_eq empty later
        simp [wordsFrom, empty, whole, Cut]
  | cons b rest ih =>
      by_cases blank : isSpace b
      · by_cases empty : current = []
        · simpa [wordsFrom, blank, empty] using ih []
        · simpa [wordsFrom, blank, empty] using (ih []).cons
      · simpa [wordsFrom, blank] using ih (current ++ [b])

theorem words_cut {text whole : List Byte} (cut : text <+: whole) :
    Cut (words text) (words whole) := by
  obtain ⟨later, rfl⟩ := cut
  exact wordsFrom_cut [] text later

end Words

section Reading

def Reads (s : Stream) (left : List (List Byte)) : Prop :=
  if s.good then words s.rest = left else left = []

def Numeric (word : List Byte) : Prop := ∀ b ∈ (unsign word).2, isDigit b = true

def take (value : Int) : List (List Byte) → Int × List (List Byte)
  | [] => (value, [])
  | word :: left =>
      let (sign, digits) := unsign word
      let read := sign * number digits
      if digits = [] then (0, [])
      else if read < -2 ^ 31 then (-2 ^ 31, [])
      else if 2 ^ 31 ≤ read then (2 ^ 31 - 1, [])
      else (read, left)

variable {s : Stream} {left : List (List Byte)} {first : List Byte}

theorem solid_dropWhile (text : List Byte) :
    ∀ b, (text.dropWhile isSpace).head? = some b → isSpace b = false := by
  intro b same
  have kept := List.head?_dropWhile_not isSpace text
  rw [same] at kept
  simpa using kept

theorem reads_cons (reads : Reads s (first :: left)) :
    s.good = true ∧ first ≠ [] ∧ ∃ after, s.rest.dropWhile isSpace = first ++ after ∧
      (∀ b ∈ first, isSpace b = false) ∧ (∀ b, after.head? = some b → isSpace b = true) ∧
      words after = left := by
  unfold Reads at reads
  split at reads
  next good =>
    have headed := solid_dropWhile s.rest
    have nonempty : s.rest.dropWhile isSpace ≠ [] := by
      intro empty
      rw [← words_dropWhile, empty] at reads
      cases reads
    have split := words_solid nonempty headed
    rw [words_dropWhile, reads] at split
    obtain ⟨rfl, rest⟩ := List.cons.inj split
    refine ⟨good, ?_, _, (List.takeWhile_append_dropWhile).symm, ?_, ?_, rest.symm⟩
    · intro empty
      cases chars : s.rest.dropWhile isSpace with
      | nil => exact nonempty chars
      | cons b tail => simp [chars, headed b (by simp [chars])] at empty
    · intro b member
      simpa using List.mem_takeWhile_imp member
    · intro b same
      have kept := List.head?_dropWhile_not (fun b => !isSpace b) (s.rest.dropWhile isSpace)
      rw [same] at kept
      simpa using kept
  next => cases reads

theorem reads_after {after : List Byte} (rest : words after = left) :
    Reads { rest := after, good := decide (after ≠ []) } left := by
  unfold Reads
  by_cases empty : after = []
  · subst empty
    simpa [words, wordsFrom] using rest.symm
  · simpa [empty] using rest

theorem reads_bad (rest : List Byte) : Reads { rest := rest, good := false } [] := rfl

theorem takeWhile_exact {p : Byte → Bool} {body after : List Byte} (inside : ∀ b ∈ body, p b = true)
    (outside : ∀ b, after.head? = some b → p b = false) :
    (body ++ after).takeWhile p = body ∧ (body ++ after).dropWhile p = after := by
  have stops : after.takeWhile p = [] ∧ after.dropWhile p = after := by
    cases after with
    | nil => exact ⟨rfl, rfl⟩
    | cons b rest => simp [outside b rfl]
  rw [List.takeWhile_append_of_pos inside, List.dropWhile_append_of_pos inside, stops.1, stops.2]
  simp

theorem word_reads (reads : Reads s (first :: left)) :
    (word s).1 = first ∧ Reads (word s).2 left := by
  obtain ⟨good, -, after, split, solid, blank, rest⟩ := reads_cons reads
  have parts := @takeWhile_exact (fun b => !isSpace b) first after
    (by simpa using solid) (by simpa using blank)
  have same : word s = (first, { rest := after, good := decide (after ≠ []) }) := by
    simp only [word, good, split, parts.1, parts.2, Bool.not_true, Bool.false_eq_true, if_false]
  rw [same]
  exact ⟨rfl, reads_after rest⟩

theorem int_nothing (value : Int) (reads : Reads s []) :
    (int value s).1 = value ∧ Reads (int value s).2 [] := by
  cases good : s.good with
  | false => simp [int, good, Reads]
  | true =>
      have none_left : words s.rest = [] := by simpa [Reads, good] using reads
      have blank : s.rest.dropWhile isSpace = [] := by
        by_contra nonempty
        have split := words_solid nonempty (solid_dropWhile s.rest)
        rw [words_dropWhile, none_left] at split
        cases split
      simp [int, good, blank, Reads]

theorem isDigit_of_isSpace {b : Byte} (blank : isSpace b = true) : isDigit b = false := by
  simp only [isSpace, isDigit, Bool.or_eq_true, Bool.and_eq_true, decide_eq_true_eq, beq_iff_eq,
    Bool.and_eq_false_iff, decide_eq_false_iff_not] at *
  omega

theorem unsign_append (nonempty : first ≠ []) (after : List Byte) :
    unsign (first ++ after) = ((unsign first).1, (unsign first).2 ++ after) := by
  cases first with
  | nil => exact absurd rfl nonempty
  | cons b rest =>
      simp only [List.cons_append, unsign]
      split
      next => rfl
      next =>
        split
        next => rfl
        next => rfl

theorem int_reads (value : Int) (numeric : Numeric first) (reads : Reads s (first :: left)) :
    (int value s).1 = (take value (first :: left)).1 ∧
      Reads (int value s).2 (take value (first :: left)).2 := by
  obtain ⟨good, nonempty, after, split, -, blank, rest⟩ := reads_cons reads
  have parts := @takeWhile_exact isDigit (unsign first).2 after numeric
    fun b same => isDigit_of_isSpace (blank b same)
  have some_left : first ++ after ≠ [] := by simp [nonempty]
  simp only [int, good, split, some_left, unsign_append nonempty, parts.1, parts.2, take,
    Bool.not_true, Bool.false_eq_true, if_false]
  split_ifs
  · exact ⟨rfl, reads_bad _⟩
  · exact ⟨rfl, reads_bad _⟩
  · exact ⟨rfl, reads_bad _⟩
  · exact ⟨rfl, reads_after rest⟩

theorem int_take (value : Int) (numeric : ∀ word ∈ left, Numeric word) (reads : Reads s left) :
    (int value s).1 = (take value left).1 ∧ Reads (int value s).2 (take value left).2 := by
  cases left with
  | nil => exact int_nothing value reads
  | cons first left => exact int_reads value (numeric first List.mem_cons_self) reads

theorem take_rest (value : Int) (left : List (List Byte)) :
    (take value left).2 = [] ∨ (take value left).2 = left.tail := by
  cases left with
  | nil => exact Or.inl rfl
  | cons first left =>
      simp only [take, List.tail_cons]
      split_ifs
      · exact Or.inl rfl
      · exact Or.inl rfl
      · exact Or.inl rfl
      · exact Or.inr rfl

theorem take_length (value : Int) (left : List (List Byte)) :
    (take value left).2.length ≤ left.length - 1 := by
  obtain none_left | tail := take_rest value left
  · simp [none_left]
  · simp [tail]

theorem wordsFrom_nonempty (current text : List Byte) :
    ∀ word ∈ wordsFrom current text, word ≠ [] := by
  induction text generalizing current with
  | nil =>
      intro word member
      by_cases empty : current = []
      · simp [wordsFrom, empty] at member
      · obtain rfl : word = current := by simpa [wordsFrom, empty] using member
        exact empty
  | cons b rest ih =>
      intro word member
      unfold wordsFrom at member
      split_ifs at member with blank empty
      · exact ih _ word member
      · obtain rfl | later := List.mem_cons.mp member
        · exact empty
        · exact ih _ word later
      · exact ih _ word member

end Reading

section Numbers

theorem number_append (front back : List Byte) :
    number (front ++ back) = back.foldl (fun n d => 10 * n + (d.toNat - 48)) (number front) := by
  rw [number, List.foldl_append]
  rfl

theorem le_number_append (front back : List Byte) : number front ≤ number (front ++ back) := by
  rw [number_append]
  generalize number front = start
  induction back generalizing start with
  | nil => exact le_rfl
  | cons d rest ih =>
      have step : start ≤ 10 * start + (d.toNat - 48) := by omega
      exact step.trans (ih _)

theorem eq_of_number_prefix {cut digits : List Byte} (prefixed : cut <+: digits)
    (positive : 0 < number digits) (same : number cut = number digits) : cut = digits := by
  obtain ⟨rest, rfl⟩ := prefixed
  cases rest with
  | nil => simp
  | cons d rest =>
      have longer : number (cut ++ [d]) ≤ number (cut ++ d :: rest) := by
        simpa using le_number_append (cut ++ [d]) rest
      have tenfold : number (cut ++ [d]) = 10 * number cut + (d.toNat - 48) := by
        rw [number_append]
        rfl
      omega

theorem literal_parts {word : List Byte} {z : Int} (reads : literal word = some z) :
    (unsign word).2 ≠ [] ∧ Numeric word ∧ z = (unsign word).1 * number (unsign word).2 := by
  obtain ⟨⟨nonempty, digits⟩, same⟩ := Option.ite_none_right_eq_some.mp reads
  exact ⟨nonempty, List.all_eq_true.mp digits, (Option.some.inj same).symm⟩

theorem unsign_sign (word : List Byte) : (unsign word).1 = 1 ∨ (unsign word).1 = -1 := by
  cases word with
  | nil => exact Or.inl rfl
  | cons b rest =>
      simp only [unsign]
      split_ifs <;> simp

theorem positive_literal {word : List Byte} {z : Int} (reads : literal word = some z)
    (positive : 0 < z) : (unsign word).1 = 1 ∧ z = number (unsign word).2 := by
  obtain ⟨-, -, same⟩ := literal_parts reads
  obtain plus | minus := unsign_sign word
  · exact ⟨plus, by rw [same, plus, one_mul]⟩
  · rw [same, minus] at positive
    omega

variable {word first : List Byte} {left : List (List Byte)} {z value : Int}

theorem take_literal (reads : literal word = some z) (low : -2 ^ 31 ≤ z) (high : z < 2 ^ 31) :
    take value (word :: left) = (z, left) := by
  obtain ⟨nonempty, -, same⟩ := literal_parts reads
  simp only [take, nonempty, ← same, if_false, not_lt.mpr low, not_le.mpr high]

theorem prefix_numeric (reads : literal word = some z) (prefixed : first <+: word)
    (nonempty : first ≠ []) : Numeric first := by
  obtain ⟨-, numeric, -⟩ := literal_parts reads
  obtain ⟨later, rfl⟩ := prefixed
  intro b member
  rw [Numeric, unsign_append nonempty] at numeric
  exact numeric b (List.mem_append_left _ member)

theorem cut_numeric {ws whole : List (List Byte)} (cut : Cut ws whole)
    (literals : ∀ word ∈ whole, (literal word).isSome) (nonempty : ∀ word ∈ ws, word ≠ []) :
    ∀ word ∈ ws, Numeric word := by
  induction ws generalizing whole with
  | nil => simp
  | cons first rest ih =>
      obtain ⟨own, others⟩ := List.forall_mem_cons.mp nonempty
      cases whole with
      | nil => exact cut.elim
      | cons word whole =>
          obtain ⟨reads, later⟩ := List.forall_mem_cons.mp literals
          obtain ⟨z, reads⟩ := Option.isSome_iff_exists.mp reads
          cases rest with
          | nil => exact List.forall_mem_singleton.mpr (prefix_numeric reads cut own)
          | cons next rest =>
              obtain ⟨rfl, cut⟩ := cut
              exact List.forall_mem_cons.mpr ⟨(literal_parts reads).2.1, ih cut later others⟩

theorem take_prefix (value : Int) (left : List (List Byte)) (reads : literal word = some z)
    (positive : 0 < z) (prefixed : first <+: word) (nonempty : first ≠ []) :
    0 ≤ (take value (first :: left)).1 ∧
      ((take value (first :: left)).1 = z → first = word ∧ z < 2 ^ 31) := by
  obtain ⟨later, rfl⟩ := prefixed
  obtain ⟨plus, same⟩ := positive_literal reads positive
  simp only [unsign_append nonempty] at plus same
  have below := le_number_append (unsign first).2 later
  simp only [take, plus, one_mul]
  split_ifs with empty low high
  · exact ⟨le_rfl, fun zero => absurd zero.symm (by omega)⟩
  · omega
  · exact ⟨by omega, fun most => by omega⟩
  · refine ⟨by omega, fun equal => ?_⟩
    have whole := eq_of_number_prefix (List.prefix_append (unsign first).2 later) (by omega)
      (by omega)
    have none_later : later = [] := by simpa using whole
    exact ⟨by simp [none_later], by omega⟩

theorem take_fits (reads : literal word = some z) (positive : 0 < z)
    (more : (take value (word :: left)).2 ≠ []) :
    take value (word :: left) = (z, left) ∧ z < 2 ^ 31 := by
  by_cases fits : z < 2 ^ 31
  · exact ⟨take_literal reads (by omega) fits, fits⟩
  · obtain ⟨nonempty, -, same⟩ := literal_parts reads
    simp only [take, nonempty, ← same, if_false, not_lt.mpr (show -2 ^ 31 ≤ z by omega),
      not_lt.mp fits, if_true, ne_eq, not_true] at more

end Numbers

end Extraction
