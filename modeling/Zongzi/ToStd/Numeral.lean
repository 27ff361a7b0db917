import Mathlib

/-! # Numerals

A numeral is its digits, the most significant one first. Leading zeros do not matter for its value, and nothing else is
lost: the digits of the value are the numeral without them.
-/

namespace Numeral

variable {base : ℕ} {digits : List ℕ}

/-- The value so far, and the digits that follow. -/
def read (base : ℕ) (value : ℕ) (digits : List ℕ) : ℕ := digits.foldl (fun value digit => value * base + digit) value

/-- The numeral without its leading zeros. -/
def strip (digits : List ℕ) : List ℕ := digits.dropWhile (· = 0)

theorem read_eq (value : ℕ) :
    read base value digits = value * base ^ digits.length + Nat.ofDigits base digits.reverse := by
  induction digits generalizing value with
  | nil => simp [read]
  | cons digit digits ih =>
    rw [read, List.foldl_cons, ← read, ih, List.reverse_cons, Nat.ofDigits_append, List.length_cons,
      List.length_reverse, Nat.ofDigits_singleton]
    ring

theorem read_zero : read base 0 digits = Nat.ofDigits base digits.reverse := by simp [read_eq]

/-- What is read so far is no more than what is read in the end. -/
theorem le_read (positive : 0 < base) (value : ℕ) : value ≤ read base value digits := by
  rw [read_eq]
  exact le_add_right (Nat.le_mul_of_pos_right value (Nat.pow_pos positive))

variable (large : 1 < base) (bounded : ∀ digit ∈ digits, digit < base)
include large bounded

theorem read_lt : read base 0 digits < base ^ digits.length := by
  rw [read_zero, ← List.length_reverse]
  exact Nat.ofDigits_lt_base_pow_length large fun digit member => bounded digit (List.mem_reverse.mp member)

theorem digits_read : (Nat.digits base (read base 0 digits)).reverse = strip digits := by
  induction digits with
  | nil => simp [read, strip]
  | cons digit digits ih =>
    by_cases zero : digit = 0
    · subst zero
      rw [read, List.foldl_cons, zero_mul, ← read, ih fun other member => bounded other (List.mem_cons_of_mem _ member),
        strip, strip, List.dropWhile_cons_of_pos (by simp)]
    · rw [read_zero, Nat.digits_ofDigits base large, List.reverse_reverse, strip,
        List.dropWhile_cons_of_neg (by simpa using zero)]
      · exact fun other member => bounded other (List.mem_reverse.mp member)
      · intro nonempty
        simpa using zero

/-- Two numerals have the same value if and only if they are equal after their leading zeros. -/
theorem read_eq_read_iff {others : List ℕ} (also : ∀ digit ∈ others, digit < base) :
    read base 0 digits = read base 0 others ↔ strip digits = strip others := by
  rw [← digits_read large bounded, ← digits_read large also, List.reverse_inj, Nat.digits_inj_iff]

end Numeral
