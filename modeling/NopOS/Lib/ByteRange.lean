import NopOS.Lib.LittleEndian

/-!
# Ranges of memory which are overwritten

Memory gives a value for each address.  The range of `count` addresses from
`start` on takes its values from a source, which is indexed from 0.
-/

namespace NopOS.Lib.ByteRange

open NopOS.Lib.LittleEndian

section Overwrite

variable {α : Type} {memory : Nat → α} {start count : Nat} {source : Nat → α}

/-- Memory with a number of items from a source at a place. -/
def overwrite
    (memory : Nat → α) (start count : Nat) (source : Nat → α) : Nat → α :=
  fun k =>
    if start ≤ k ∧ k < start + count then source (k - start) else memory k

theorem overwrite_inside {i : Nat} (inside : i < count) :
    overwrite memory start count source (start + i) = source i := by
  have covered : start ≤ start + i ∧ start + i < start + count := by
    constructor
    · exact Nat.le_add_right start i
    · exact Nat.add_lt_add_left inside start
  rw [overwrite, if_pos covered, Nat.add_sub_cancel_left]

theorem overwrite_outside {k : Nat}
    (outside : k < start ∨ start + count ≤ k) :
    overwrite memory start count source k = memory k := by
  rw [overwrite, if_neg]
  rintro ⟨notBelow, notAbove⟩
  omega

theorem overwrite_zero : overwrite memory start 0 source = memory := by
  funext k
  exact overwrite_outside (Nat.lt_or_ge k start)

/-- The first value can be written before the others. -/
theorem overwrite_update :
    overwrite (Function.update memory start (source 0)) (start + 1) count
        (fun i => source (i + 1)) =
      overwrite memory start (count + 1) source := by
  funext k
  by_cases inside : start + 1 ≤ k ∧ k < start + 1 + count
  · rcases Nat.exists_eq_add_of_le inside.1 with ⟨i, rfl⟩
    have low : i < count := by omega
    have order : start + 1 + i = start + (i + 1) := by omega
    rw [overwrite_inside low, order, overwrite_inside (by omega)]
  · rw [overwrite_outside (by omega)]
    by_cases first : k = start
    · subst k
      have head :
          overwrite memory start (count + 1) source (start + 0) = source 0 :=
        overwrite_inside (Nat.succ_pos count)
      rw [Function.update_self]
      exact head.symm
    · rw [Function.update_of_ne first, overwrite_outside (by omega)]

/-- Only the values which are written matter. -/
theorem overwrite_congr {other : Nat → α}
    (same : ∀ i < count, source i = other i) :
    overwrite memory start count source =
      overwrite memory start count other := by
  funext k
  by_cases inside : start ≤ k ∧ k < start + count
  · rw [overwrite, overwrite, if_pos inside, if_pos inside]
    exact same (k - start) (by omega)
  · rw [overwrite, overwrite, if_neg inside, if_neg inside]

end Overwrite

/-- Numbers beside the range keep their values. -/
theorem littleEndian_overwrite_of_apart
    {memory source : Nat → BitVec 8} {start count other length : Nat}
    (apart : other + length ≤ start ∨ start + count ≤ other) :
    littleEndian (overwrite memory start count source) other length =
      littleEndian memory other length := by
  apply littleEndian_congr
  intro i inside
  exact overwrite_outside (by omega)

end NopOS.Lib.ByteRange
