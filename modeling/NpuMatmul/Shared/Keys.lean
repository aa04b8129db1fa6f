import Mathlib.Data.List.Basic

set_option autoImplicit false

namespace Keys

def digits (n : Nat) : List Char := n.repr.toList

-- Decimal numbers with a separator between them.
def joined (separator : Char) : List Nat → List Char
  | [] => []
  | [n] => digits n
  | n :: rest => digits n ++ separator :: joined separator rest

@[simp] theorem ofDigitChars_digits (n : Nat) : Nat.ofDigitChars 10 (digits n) 0 = n := by
  simp [digits]

theorem digits_injective {m n : Nat} (same : digits m = digits n) : m = n := by
  have value := congrArg (Nat.ofDigitChars 10 · 0) same
  simpa using value

theorem isDigit_of_mem_digits {c : Char} {n : Nat} (member : c ∈ digits n) : c.isDigit = true := by
  apply Nat.isDigit_of_mem_toDigits (by decide : 0 < 10) (Nat.le_refl 10) (n := n)
  simpa [digits] using member

theorem separator_notMem {separator : Char} (apart : separator.isDigit = false) (n : Nat) :
    separator ∉ digits n := by
  intro member
  rw [isDigit_of_mem_digits member] at apart
  cases apart

theorem split_first {separator : Char} {left right rest others : List Char}
    (leftClean : separator ∉ left) (rightClean : separator ∉ right)
    (same : left ++ separator :: rest = right ++ separator :: others) :
    left = right ∧ rest = others := by
  induction left generalizing right with
  | nil =>
      cases right with
      | nil => simpa using same
      | cons c _ =>
          simp only [List.nil_append, List.cons_append, List.cons.injEq] at same
          simp [same.1] at rightClean
  | cons c tail ih =>
      cases right with
      | nil =>
          simp only [List.nil_append, List.cons_append, List.cons.injEq] at same
          simp [same.1] at leftClean
      | cons d _ =>
          simp only [List.cons_append, List.cons.injEq] at same
          simp only [List.mem_cons, not_or] at leftClean rightClean
          obtain ⟨tails, equal⟩ := ih leftClean.2 rightClean.2 same.2
          exact ⟨by rw [same.1, tails], equal⟩

theorem joined_cons {separator : Char} (n : Nat) {rest : List Nat} (more : rest ≠ []) :
    joined separator (n :: rest) = digits n ++ separator :: joined separator rest := by
  cases rest with
  | nil => exact absurd rfl more
  | cons _ _ => rfl

theorem joined_injective {separator : Char} (apart : separator.isDigit = false)
    {left right : List Nat} (leftSome : left ≠ []) (rightSome : right ≠ [])
    (same : joined separator left = joined separator right) : left = right := by
  have single (m n : Nat) {rest : List Nat} (more : rest ≠ []) :
      joined separator [m] ≠ joined separator (n :: rest) := by
    intro equal
    rw [joined_cons n more] at equal
    apply separator_notMem apart m
    change digits m = _ at equal
    rw [equal]
    simp
  induction left generalizing right with
  | nil => exact absurd rfl leftSome
  | cons m leftRest ih =>
      cases right with
      | nil => exact absurd rfl rightSome
      | cons n rightRest =>
          by_cases leftLast : leftRest = []
          · subst leftLast
            by_cases rightLast : rightRest = []
            · subst rightLast
              rw [digits_injective same]
            · exact absurd same (single m n rightLast)
          · by_cases rightLast : rightRest = []
            · subst rightLast
              exact absurd same.symm (single n m leftLast)
            · rw [joined_cons m leftLast, joined_cons n rightLast] at same
              obtain ⟨first, others⟩ :=
                split_first (separator_notMem apart m) (separator_notMem apart n) same
              rw [digits_injective first, ih leftLast rightLast others]

end Keys
