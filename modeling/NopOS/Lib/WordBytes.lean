import NopOS.Lib.BitField
import NopOS.Lib.LittleEndian

/-!
# The bytes of a memory of words

A memory gives the 64-bit word at each multiple of eight.  Its bytes are the
fields of these words, and a number stored at a list of places changes the
fields of its bytes only.  In places one after the other it is stored as in
byte-addressed memory.
-/

namespace NopOS.Lib.WordBytes

open NopOS.Lib.BitField
open NopOS.Lib.LittleEndian

/-- The word which holds a byte. -/
def wordOf (place : Nat) : Nat := place / 8 * 8

/-- The position of a byte in its word. -/
def lane (place : Nat) : Field 64 where
  offset := 8 * (place % 8)
  width := 8
  fits := by omega

variable {words : Nat → BitVec 64}

/-- A byte of a memory of 64-bit words. -/
def byteAt (words : Nat → BitVec 64) (place : Nat) : BitVec 8 :=
  (lane place).get (words (wordOf place))

theorem getLsbD_byteAt (words : Nat → BitVec 64) (place bit : Nat) :
    (byteAt words place).getLsbD bit =
      (decide (bit < 8) &&
        (words (wordOf place)).getLsbD (8 * (place % 8) + bit)) :=
  Field.getLsbD_get _ _ _

/-- One byte of such a memory is replaced. -/
def setByte (words : Nat → BitVec 64) (place : Nat) (value : BitVec 8) :
    Nat → BitVec 64 :=
  Function.update words (wordOf place)
    ((lane place).set (words (wordOf place)) value)

theorem byteAt_setByte (place : Nat) (value : BitVec 8) :
    byteAt (setByte words place value) place = value := by
  rw [byteAt, setByte, Function.update_self]
  exact Field.get_set _ _ _

theorem byteAt_setByte_of_ne
    {place other : Nat} (different : other ≠ place) (value : BitVec 8) :
    byteAt (setByte words place value) other = byteAt words other := by
  rw [byteAt, byteAt, setByte]
  by_cases same : wordOf other = wordOf place
  · have apart : Field.Apart (lane other) (lane place) := by
      simp only [Field.Apart, lane, wordOf] at same ⊢
      omega
    rw [same, Function.update_self]
    exact Field.get_set_of_apart _ _ apart _ _
  · rw [Function.update_of_ne same]

theorem setByte_of_ne
    {place word : Nat} (different : word ≠ wordOf place)
    (value : BitVec 8) :
    setByte words place value word = words word :=
  Function.update_of_ne different _ _

/-! ## Numbers -/

/-- The number whose bytes, the lowest first, are at the places. -/
def numberAt (words : Nat → BitVec 64) : List Nat → Nat
  | [] => 0
  | place :: places =>
      (byteAt words place).toNat + 256 * numberAt words places

/-- Store the bytes of a number, the lowest first, at the places. -/
def storeAt (words : Nat → BitVec 64) : List Nat → Nat → Nat → BitVec 64
  | [], _ => words
  | place :: places, value =>
      storeAt (setByte words place (byteOf value 0)) places (value / 256)

theorem numberAt_range (start count : Nat) :
    numberAt words (List.range' start count) =
      littleEndian (byteAt words) start count := by
  induction count generalizing start with
  | zero => rfl
  | succ count induction =>
      rw [List.range'_succ, numberAt, induction, littleEndian]

/-- Words which hold none of the places stay what they are. -/
theorem storeAt_of_ne
    {places : List Nat} {word : Nat}
    (different : ∀ place ∈ places, word ≠ wordOf place) (value : Nat) :
    storeAt words places value word = words word := by
  induction places generalizing words value with
  | nil => rfl
  | cons place places induction =>
      rw [storeAt,
        induction (fun other member =>
          different other (List.mem_cons_of_mem _ member)),
        setByte_of_ne (different place List.mem_cons_self)]

theorem byteOf_succ (value i : Nat) :
    byteOf (value / 256) i = byteOf value (i + 1) := by
  rw [byteOf, byteOf, Nat.div_div_eq_div_mul, Nat.pow_succ']

/-- At places in a row the number is stored as in memory of bytes. -/
theorem byteAt_storeAt_range (start count value : Nat) :
    byteAt (storeAt words (List.range' start count) value) =
      store (byteAt words) start count value := by
  induction count generalizing words start value with
  | zero =>
      funext place
      rw [store_outside (by omega)]
      rfl
  | succ count induction =>
      funext place
      rw [List.range'_succ, storeAt, induction]
      by_cases first : place = start
      · rw [first, store_outside (Or.inl (Nat.lt_succ_self _)),
          byteAt_setByte, store, if_pos (by omega), Nat.sub_self]
      · by_cases inside : start ≤ place ∧ place < start + (count + 1)
        · have later :
              start + 1 ≤ place ∧ place < start + 1 + count := by
            omega
          have index : place - start = place - (start + 1) + 1 := by omega
          rw [store, store, if_pos inside, if_pos later, byteOf_succ, index]
        · rw [store_outside (by omega), store_outside (by omega),
            byteAt_setByte_of_ne first]

end NopOS.Lib.WordBytes
