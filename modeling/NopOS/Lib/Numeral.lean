import Mathlib.Data.Nat.Digits.Lemmas
import Mathlib.Tactic

/-!
# Numbers which are read digit by digit

The number which digits spell, from the highest one on, and the test which
keeps a number within a bound before a digit is appended.
-/

namespace NopOS.Lib.Numeral

/-- The number which the digits spell, behind others which spell `before`. -/
def value (base before : Nat) (digits : List Nat) : Nat :=
  digits.foldl (fun number digit => number * base + digit) before

section Value

variable {base before : Nat}

@[simp]
theorem value_nil : value base before [] = before :=
  rfl

@[simp]
theorem value_cons (digit : Nat) (digits : List Nat) :
    value base before (digit :: digits) =
      value base (before * base + digit) digits :=
  rfl

theorem value_append (first second : List Nat) :
    value base before (first ++ second) =
      value base (value base before first) second :=
  List.foldl_append

/-- More digits do not make a number smaller. -/
theorem le_value (positive : 0 < base) (digits : List Nat) :
    before ≤ value base before digits := by
  induction digits generalizing before with
  | nil => exact le_rfl
  | cons digit digits induction =>
      have grows : before ≤ before * base + digit :=
        (Nat.le_mul_of_pos_right before positive).trans (Nat.le_add_right _ _)
      exact grows.trans induction

@[simp]
theorem value_zeros (count : Nat) :
    value base 0 (List.replicate count 0) = 0 := by
  induction count with
  | zero => rfl
  | succ count induction =>
      rw [List.replicate_succ, value_cons, Nat.zero_mul]
      exact induction

theorem value_reverse (digits : List Nat) :
    value base 0 digits.reverse = Nat.ofDigits base digits := by
  induction digits with
  | nil => rfl
  | cons digit digits induction =>
      rw [List.reverse_cons, value_append, induction, Nat.ofDigits_cons,
        value_cons, value_nil]
      ring

/-- The digits of a number spell it. -/
theorem value_digits (base number : Nat) :
    value base 0 (Nat.digits base number).reverse = number := by
  rw [value_reverse, Nat.ofDigits_digits]

end Value

/-- What is tested before a digit is appended to a number. -/
theorem append_le_iff
    {base digit : Nat} (small : digit < base) (limit number : Nat) :
    number < limit / base ∨ number = limit / base ∧ digit ≤ limit % base ↔
      number * base + digit ≤ limit := by
  have positive : 0 < base := Nat.zero_lt_of_lt small
  have parts := Nat.div_add_mod' limit base
  constructor
  · rintro (below | ⟨rfl, lastFits⟩)
    · have room : (number + 1) * base ≤ limit / base * base :=
        Nat.mul_le_mul_right base below
      rw [Nat.succ_mul] at room
      omega
    · omega
  · intro fits
    have quotient : number ≤ limit / base := by
      rw [Nat.le_div_iff_mul_le positive]
      omega
    rcases quotient.lt_or_eq with below | same
    · exact Or.inl below
    · subst same
      exact Or.inr ⟨rfl, by omega⟩

end NopOS.Lib.Numeral
