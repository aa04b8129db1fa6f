import Mathlib.Data.List.DropRight
import NpuMatmul.Shared.Keys

set_option autoImplicit false

-- str.strip, str.split and int of Python, on the characters of a string.
namespace Words

def isSpace (c : Char) : Bool :=
  let code := c.toNat
  (9 ≤ code && code ≤ 13) || (28 ≤ code && code ≤ 32) || code == 0x85 || code == 0xA0 ||
    code == 0x1680 || (0x2000 ≤ code && code ≤ 0x200A) || code == 0x2028 || code == 0x2029 ||
    code == 0x202F || code == 0x205F || code == 0x3000

def strip (chars : List Char) : List Char := (chars.dropWhile isSpace).rdropWhile isSpace

def splitFrom (word : List Char) : List Char → List (List Char)
  | [] => if word = [] then [] else [word]
  | c :: rest =>
      if isSpace c then
        if word = [] then splitFrom [] rest else word :: splitFrom [] rest
      else splitFrom (word ++ [c]) rest

def split (chars : List Char) : List (List Char) := splitFrom [] chars

def digitValue (c : Char) : Nat := c.toNat - '0'.toNat

-- An underscore may stand between two digits. Digits of other scripts are left out.
def decimal (value : Nat) : List Char → Option Nat
  | [] => some value
  | '_' :: c :: rest => if c.isDigit then decimal (10 * value + digitValue c) rest else none
  | c :: rest => if c.isDigit then decimal (10 * value + digitValue c) rest else none

def unsigned : List Char → Option Nat
  | [] => none
  | c :: rest => if c.isDigit then decimal (digitValue c) rest else none

-- int() raises a ValueError on none.
def int (chars : List Char) : Option Int :=
  match strip chars with
  | '-' :: rest => (unsigned rest).map fun value => -(value : Int)
  | '+' :: rest => (unsigned rest).map Int.ofNat
  | rest => (unsigned rest).map Int.ofNat

section Split

theorem splitFrom_spaces {spaces : List Char} (blank : ∀ c ∈ spaces, isSpace c = true)
    (word : List Char) : splitFrom word spaces = splitFrom word [] := by
  induction spaces generalizing word with
  | nil => rfl
  | cons c rest ih =>
      have later := ih fun d member => blank d (List.mem_cons_of_mem c member)
      simp only [splitFrom, blank c List.mem_cons_self, if_true]
      by_cases empty : word = [] <;> simp [empty, later, splitFrom]

theorem splitFrom_append_spaces {spaces : List Char} (blank : ∀ c ∈ spaces, isSpace c = true)
    (word chars : List Char) : splitFrom word (chars ++ spaces) = splitFrom word chars := by
  induction chars generalizing word with
  | nil => exact splitFrom_spaces blank word
  | cons c rest ih => simp only [List.cons_append, splitFrom, ih]

theorem split_dropWhile (chars : List Char) : split (chars.dropWhile isSpace) = split chars := by
  induction chars with
  | nil => rfl
  | cons c rest ih =>
      by_cases blank : isSpace c = true
      · rw [List.dropWhile_cons_of_pos blank, ih]
        simp [split, splitFrom, blank]
      · rw [List.dropWhile_cons_of_neg blank]

theorem split_rdropWhile (chars : List Char) : split (chars.rdropWhile isSpace) = split chars := by
  have trailing : ∀ c ∈ chars.rtakeWhile isSpace, isSpace c = true :=
    fun c member => List.mem_rtakeWhile_imp member
  calc split (chars.rdropWhile isSpace)
      = split (chars.rdropWhile isSpace ++ chars.rtakeWhile isSpace) :=
        (splitFrom_append_spaces trailing [] _).symm
    _ = split chars := by rw [List.rdropWhile_append_rtakeWhile]

theorem split_strip (chars : List Char) : split (strip chars) = split chars := by
  rw [strip, split_rdropWhile, split_dropWhile]

structure IsWord (word : List Char) : Prop where
  nonempty : word ≠ []
  solid : ∀ c ∈ word, isSpace c = false

theorem solid_of_all {word : List Char} (all : word.all (fun c => !isSpace c) = true) :
    ∀ c ∈ word, isSpace c = false := by
  simpa using all

theorem splitFrom_word {chars : List Char} (solid : ∀ c ∈ chars, isSpace c = false)
    (word rest : List Char) : splitFrom word (chars ++ rest) = splitFrom (word ++ chars) rest := by
  induction chars generalizing word with
  | nil => simp
  | cons c tail ih =>
      have own := solid c List.mem_cons_self
      have later := ih fun d member => solid d (List.mem_cons_of_mem c member)
      simp [splitFrom, own, later]

def unwords : List (List Char) → List Char
  | [] => []
  | [word] => word
  | word :: rest => word ++ ' ' :: unwords rest

theorem split_unwords {words : List (List Char)} (all : ∀ word ∈ words, IsWord word) :
    split (unwords words) = words := by
  induction words with
  | nil => rfl
  | cons word rest ih =>
      have own := all word List.mem_cons_self
      have later := ih fun other member => all other (List.mem_cons_of_mem word member)
      cases rest with
      | nil =>
          have whole := splitFrom_word own.solid [] []
          simpa [split, unwords, splitFrom, own.nonempty] using whole
      | cons next others =>
          have blank : isSpace ' ' = true := by decide
          rw [unwords, split, splitFrom_word own.solid]
          simp only [List.nil_append, splitFrom, blank, if_true, own.nonempty, if_false]
          rw [← split, later]
          simp

end Split

section Numbers

theorem isSpace_of_isDigit {c : Char} (digit : c.isDigit = true) : isSpace c = false := by
  have bounds : 48 ≤ c.toNat ∧ c.toNat ≤ 57 := by
    simp only [Char.isDigit, Bool.and_eq_true, decide_eq_true_eq] at digit
    exact ⟨UInt32.le_iff_toNat_le.mp digit.1, UInt32.le_iff_toNat_le.mp digit.2⟩
  simp only [isSpace, Bool.or_eq_false_iff, Bool.and_eq_false_iff, decide_eq_false_iff_not,
    beq_eq_false_iff_ne]
  omega

theorem decimal_digits {chars : List Char} (digits : ∀ c ∈ chars, c.isDigit = true)
    (value : Nat) : decimal value chars = some (Nat.ofDigitChars 10 chars value) := by
  induction chars generalizing value with
  | nil => simp [decimal]
  | cons c rest ih =>
      have own := digits c List.mem_cons_self
      have later := ih fun d member => digits d (List.mem_cons_of_mem c member)
      have apart : c ≠ '_' := by
        rintro rfl
        cases own
      rw [decimal]
      · simp [own, later, digitValue, Nat.ofDigitChars_cons]
      · intro d others same
        exact absurd same apart

theorem unsigned_digits (n : Nat) : unsigned (Keys.digits n) = some n := by
  have value := Keys.ofDigitChars_digits n
  have digits : ∀ c ∈ Keys.digits n, c.isDigit = true := fun c => Keys.isDigit_of_mem_digits
  cases chars : Keys.digits n with
  | nil => simp [Keys.digits, Nat.toDigits_ne_nil] at chars
  | cons c rest =>
      rw [chars] at value digits
      rw [Nat.ofDigitChars_cons] at value
      have own := digits c List.mem_cons_self
      have later := decimal_digits (fun d member => digits d (List.mem_cons_of_mem c member))
        (digitValue c)
      rw [unsigned, if_pos own, later]
      simpa [digitValue] using value

def numeral (z : Int) : List Char := (toString z).toList

theorem numeral_ofNat (n : Nat) : numeral n = Keys.digits n := rfl

theorem numeral_negSucc (n : Nat) : numeral (Int.negSucc n) = '-' :: Keys.digits (n + 1) := by
  simp [numeral, toString, Int.repr, Keys.digits]

theorem mem_numeral {c : Char} {z : Int} (member : c ∈ numeral z) :
    c = '-' ∨ c.isDigit = true := by
  cases z with
  | ofNat n => exact Or.inr (Keys.isDigit_of_mem_digits member)
  | negSucc n =>
      rw [numeral_negSucc] at member
      exact (List.mem_cons.mp member).imp_right Keys.isDigit_of_mem_digits

theorem numeral_isWord (z : Int) : IsWord (numeral z) := by
  constructor
  · cases z with
    | ofNat n => simp [numeral_ofNat, Keys.digits]
    | negSucc n => simp [numeral_negSucc]
  · intro c member
    obtain rfl | digit := mem_numeral member
    · decide
    · exact isSpace_of_isDigit digit

theorem strip_word {word : List Char} (solid : ∀ c ∈ word, isSpace c = false) :
    strip word = word := by
  have front : word.dropWhile isSpace = word := by
    cases word with
    | nil => rfl
    | cons c rest => simp [List.dropWhile, solid c List.mem_cons_self]
  rw [strip, front, List.rdropWhile_eq_self_iff]
  intro nonempty
  simp [solid _ (List.getLast_mem nonempty)]

theorem int_numeral (z : Int) : int (numeral z) = some z := by
  rw [int, strip_word (numeral_isWord z).solid]
  cases z with
  | ofNat n =>
      have digits : ∀ c ∈ Keys.digits n, c.isDigit = true := fun c => Keys.isDigit_of_mem_digits
      have value := unsigned_digits n
      change (match Keys.digits n with
        | '-' :: rest => _
        | '+' :: rest => _
        | rest => _) = _
      split
      · simp_all
      · simp_all
      · simp [value]
  | negSucc n =>
      rw [numeral_negSucc]
      simp [unsigned_digits, Int.negSucc_eq]

theorem numeral_injective {y z : Int} (same : numeral y = numeral z) : y = z := by
  have read := congrArg int same
  rw [int_numeral, int_numeral] at read
  exact Option.some.inj read

end Numbers

end Words
