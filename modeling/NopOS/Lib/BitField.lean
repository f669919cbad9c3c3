import Mathlib.Tactic

/-!
# Bit-fields of machine words

A bit-field is a contiguous run of bits of a `w`-bit word.  Reading it is bit
extraction, and assigning it replaces exactly the covered bits.  The laws
below are the lens laws together with the two frame facts every packed
hardware layout needs: an assignment leaves every bit outside the field
alone, and fields which do not overlap do not see each other's assignments.

Nothing here refers to a particular hardware structure.
-/

namespace NopOS.Lib.BitField

/-- A field of `width` bits which starts at bit `offset` of a `w`-bit word. -/
structure Field (w : Nat) where
  offset : Nat
  width : Nat
  fits : offset + width ≤ w := by decide

namespace Field

variable {w : Nat}

/-- The value held by a bit-field. -/
def get (field : Field w) (word : BitVec w) : BitVec field.width :=
  word.extractLsb' field.offset field.width

/-- Assignment of a bit-field: the covered bits are replaced. -/
def set
    (field : Field w) (word : BitVec w) (value : BitVec field.width) :
    BitVec w :=
  (word &&& ~~~((BitVec.allOnes field.width).setWidth w <<< field.offset)) |||
    (value.setWidth w <<< field.offset)

/-- The bit positions covered by a field. -/
def Covers (field : Field w) (bit : Nat) : Prop :=
  field.offset ≤ bit ∧ bit < field.offset + field.width

/-- Two fields share no bit position. -/
def Apart (first second : Field w) : Prop :=
  first.offset + first.width ≤ second.offset ∨
    second.offset + second.width ≤ first.offset

instance (first second : Field w) : Decidable (Apart first second) :=
  inferInstanceAs (Decidable (_ ∨ _))

theorem getLsbD_get
    (field : Field w) (word : BitVec w) (bit : Nat) :
    (field.get word).getLsbD bit =
      (decide (bit < field.width) && word.getLsbD (field.offset + bit)) := by
  simp [get, BitVec.getLsbD_extractLsb']

theorem getLsbD_set_covered
    (field : Field w) (word : BitVec w) (value : BitVec field.width)
    {bit : Nat} (covered : bit < field.width) :
    (field.set word value).getLsbD (field.offset + bit) =
      value.getLsbD bit := by
  have fits := field.fits
  have inWord : field.offset + bit < w := by omega
  simp [set, covered, inWord]

theorem getLsbD_set_of_not_covers
    (field : Field w) (word : BitVec w) (value : BitVec field.width)
    {bit : Nat} (outside : ¬ field.Covers bit) :
    (field.set word value).getLsbD bit = word.getLsbD bit := by
  simp only [Covers, not_and_or, not_le, not_lt] at outside
  by_cases inWord : bit < w
  · rcases outside with below | above
    · simp [set, below, inWord]
    · have notBelow : ¬ bit < field.offset := by omega
      have beyond : field.width ≤ bit - field.offset := by omega
      simp [set, notBelow, inWord, beyond]
  · rw [BitVec.getLsbD_of_ge _ _ (by omega),
      BitVec.getLsbD_of_ge _ _ (by omega)]

/-- Reading a field after assigning it returns the assigned value. -/
@[simp]
theorem get_set
    (field : Field w) (word : BitVec w) (value : BitVec field.width) :
    field.get (field.set word value) = value := by
  apply BitVec.eq_of_getLsbD_eq
  intro bit inField
  rw [getLsbD_get, getLsbD_set_covered field word value inField]
  simp [inField]

/-- Assigning a field does not disturb a field it does not overlap. -/
theorem get_set_of_apart
    (first second : Field w) (apart : Apart first second)
    (word : BitVec w) (value : BitVec second.width) :
    first.get (second.set word value) = first.get word := by
  apply BitVec.eq_of_getLsbD_eq
  intro bit inField
  have outside : ¬ second.Covers (first.offset + bit) := by
    simp only [Covers, Apart] at *
    omega
  rw [getLsbD_get, getLsbD_get,
    getLsbD_set_of_not_covers second word value outside]

/-- Assigning the value a field already holds changes nothing. -/
theorem set_eq_self
    (field : Field w) (word : BitVec w) (value : BitVec field.width)
    (holds : field.get word = value) :
    field.set word value = word := by
  apply BitVec.eq_of_getLsbD_eq
  intro bit inWord
  by_cases covered : field.Covers bit
  · obtain ⟨inside, rfl⟩ : ∃ inside, bit = field.offset + inside :=
      ⟨bit - field.offset, by have := covered.1; omega⟩
    have inField : inside < field.width := by
      have := covered.2
      omega
    rw [getLsbD_set_covered field word value inField, ← holds, getLsbD_get]
    simp [inField]
  · exact getLsbD_set_of_not_covers field word value covered

/-- A field of a single bit. -/
abbrev flag (bit : Nat) (inWord : bit < w) : Field w where
  offset := bit
  width := 1
  fits := inWord

@[simp]
theorem get_flag_eq_one_iff
    (bit : Nat) (inWord : bit < w) (word : BitVec w) :
    (flag bit inWord).get word = 1#1 ↔ word.getLsbD bit = true := by
  have onlyBit : ((flag bit inWord).get word).getLsbD 0 = word.getLsbD bit := by
    rw [getLsbD_get]
    simp
  rw [← onlyBit]
  generalize (flag bit inWord).get word = value
  revert value
  change ∀ value : BitVec 1, value = 1#1 ↔ value.getLsbD 0 = true
  decide

/-- Setting a single bit leaves the others as they are. -/
theorem getLsbD_set_flag
    (bit : Nat) (inWord : bit < w) (word : BitVec w) (other : Nat) :
    ((flag bit inWord).set word 1#1).getLsbD other =
      (decide (other = bit) || word.getLsbD other) := by
  by_cases same : other = bit
  · subst other
    have inside : 0 < (flag bit inWord).width := Nat.one_pos
    have assigned := getLsbD_set_covered (flag bit inWord) word 1#1 inside
    rw [show (flag bit inWord).offset + 0 = bit from rfl] at assigned
    rw [assigned]
    simp
  · have outside : ¬ (flag bit inWord).Covers other := by
      simp only [Covers]
      omega
    rw [getLsbD_set_of_not_covers _ _ _ outside]
    simp [same]

/-- Words which agree on a field have the same bits there. -/
theorem getLsbD_eq_of_get_eq
    {field : Field w} {first second : BitVec w} {bit : Nat}
    (same : field.get first = field.get second)
    (covered : field.Covers bit) :
    first.getLsbD bit = second.getLsbD bit := by
  have start := covered.1
  have stop := covered.2
  have inside : bit - field.offset < field.width := by omega
  have place : field.offset + (bit - field.offset) = bit := by omega
  have sameBit := congrArg (BitVec.getLsbD · (bit - field.offset)) same
  simp only [getLsbD_get, place] at sameBit
  simpa [inside] using sameBit

/-- The numeric value of a field. -/
theorem toNat_get (field : Field w) (word : BitVec w) :
    (field.get word).toNat =
      word.toNat / 2 ^ field.offset % 2 ^ field.width := by
  simp [get, BitVec.extractLsb'_toNat, Nat.shiftRight_eq_div_pow]

end Field

/-! ## Values placed in a word -/

section Placed

variable {w n : Nat} {offset : Nat}

/-- A value shifted to its place is found there. -/
theorem extractLsb'_place (value : BitVec n) (fits : offset + n ≤ w) :
    (value.setWidth w <<< offset).extractLsb' offset n = value := by
  apply BitVec.eq_of_getLsbD_eq
  intro bit inValue
  have inWord : offset + bit < w := by omega
  simp [inValue, inWord]

/-- A value shifted to its place is not seen beside it. -/
theorem extractLsb'_place_of_apart
    (value : BitVec n) {start length : Nat}
    (apart : offset + n ≤ start ∨ start + length ≤ offset) :
    (value.setWidth w <<< offset).extractLsb' start length = 0 := by
  apply BitVec.eq_of_getLsbD_eq
  intro bit inField
  rcases apart with below | above
  · have beyond : value.getLsbD (start + bit - offset) = false :=
      BitVec.getLsbD_of_ge _ _ (by omega)
    simp [beyond]
  · have before : start + bit < offset := by omega
    simp [before]

end Placed

end NopOS.Lib.BitField
