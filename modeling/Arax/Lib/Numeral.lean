/-
**Numerals at the start of a text.**

A reader of numbers takes digits as long as it finds some. What it takes of a text says already what
it takes of every longer one, unless the text is digits to its end; and then the number can only
grow.

* `digitsOf` — the digits of a base at the start of a text.
* `numeral` — their number, the most significant digit first.
* `digitsOf_append_of_lt`, `digitsOf_append_of_eq` — the digits of a longer text.
* `numeral_append`, `numeral_le_append` — the number of more digits.
-/

import Mathlib.Data.Nat.Digits.Defs

namespace Arax.Lib

variable {χ : Type*}

/-- The digits below `base` at the start of a text. -/
def digitsOf (digit : χ → Option Nat) (base : Nat) : List χ → List Nat
  | [] => []
  | c :: cs =>
    match digit c with
    | some d => if d < base then d :: digitsOf digit base cs else []
    | none => []

/-- The number that digits stand for. -/
def numeral (base : Nat) (ds : List Nat) : Nat := Nat.ofDigits base ds.reverse

variable {digit : χ → Option Nat} {base : Nat} {cs : List χ}

theorem digitsOf_length_le (digit : χ → Option Nat) (base : Nat) (cs : List χ) :
    (digitsOf digit base cs).length ≤ cs.length := by
  induction cs with
  | nil => exact le_refl _
  | cons c cs ih =>
    unfold digitsOf
    split
    · split_ifs
      · exact Nat.succ_le_succ ih
      · exact Nat.zero_le _
    · exact Nat.zero_le _

theorem digitsOf_cons_of_lt {c : χ} {d : Nat} (here : digit c = some d) (small : d < base)
    (cs : List χ) : digitsOf digit base (c :: cs) = d :: digitsOf digit base cs := by
  simp only [digitsOf, here, if_pos small]

theorem digitsOf_cons_eq_nil {c : χ} (other : ∀ d, digit c = some d → ¬ d < base) (cs : List χ) :
    digitsOf digit base (c :: cs) = [] := by
  unfold digitsOf
  split
  · next d here => exact if_neg (other d here)
  · rfl

/-- A character is a digit of the base, or it is none. -/
theorem digit_cases (digit : χ → Option Nat) (base : Nat) (c : χ) :
    (∃ d, digit c = some d ∧ d < base) ∨ ∀ d, digit c = some d → ¬ d < base := by
  by_cases found : ∃ d, digit c = some d ∧ d < base
  · exact .inl found
  · exact .inr fun d here small => found ⟨d, here, small⟩

/-- A character that is no digit ends the numeral of every longer text. -/
theorem digitsOf_append_of_lt (ended : (digitsOf digit base cs).length < cs.length)
    (more : List χ) : digitsOf digit base (cs ++ more) = digitsOf digit base cs := by
  induction cs with
  | nil => exact absurd ended (Nat.lt_irrefl _)
  | cons c cs ih =>
    rw [List.cons_append]
    rcases digit_cases digit base c with ⟨d, here, small⟩ | other
    · rw [digitsOf_cons_of_lt here small] at ended ⊢
      rw [digitsOf_cons_of_lt here small, ih (Nat.lt_of_succ_lt_succ ended)]
    · rw [digitsOf_cons_eq_nil other, digitsOf_cons_eq_nil other]

/-- A numeral that goes on to the end of the text goes on in a longer one. -/
theorem digitsOf_append_of_eq (whole : (digitsOf digit base cs).length = cs.length)
    (more : List χ) :
    digitsOf digit base (cs ++ more) = digitsOf digit base cs ++ digitsOf digit base more := by
  induction cs with
  | nil => rfl
  | cons c cs ih =>
    rw [List.cons_append]
    rcases digit_cases digit base c with ⟨d, here, small⟩ | other
    · rw [digitsOf_cons_of_lt here small] at whole ⊢
      rw [digitsOf_cons_of_lt here small, ih (Nat.succ.inj whole), List.cons_append]
    · rw [digitsOf_cons_eq_nil other] at whole
      cases whole

theorem numeral_append (base : Nat) (ds es : List Nat) :
    numeral base (ds ++ es) = numeral base ds * base ^ es.length + numeral base es := by
  unfold numeral
  rw [List.reverse_append, Nat.ofDigits_append, List.length_reverse, Nat.mul_comm, Nat.add_comm]

/-- More digits make no smaller number. -/
theorem numeral_le_append (positive : 0 < base) (ds es : List Nat) :
    numeral base ds ≤ numeral base (ds ++ es) := by
  rw [numeral_append]
  exact (Nat.le_mul_of_pos_right _ (Nat.pow_pos positive)).trans (Nat.le_add_right _ _)

/-- A digit 1 makes a greater one. -/
theorem numeral_lt_one (positive : 0 < base) (ds : List Nat) :
    numeral base ds < numeral base (ds ++ [1]) := by
  have one : numeral base [1] = 1 := by simp [numeral]
  rw [numeral_append, one, List.length_singleton, Nat.pow_one]
  exact Nat.lt_succ_of_le (Nat.le_mul_of_pos_right _ positive)

end Arax.Lib
