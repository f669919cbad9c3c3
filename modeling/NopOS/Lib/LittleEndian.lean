import Mathlib.Tactic

/-!
# Little-endian numbers in byte-addressed memory
-/

namespace NopOS.Lib.LittleEndian

/-- The number stored in `count` bytes from an address on. -/
def littleEndian (bytes : Nat → BitVec 8) (start : Nat) : Nat → Nat
  | 0 => 0
  | count + 1 =>
      (bytes start).toNat + 256 * littleEndian bytes (start + 1) count

/-- Byte `i` of a number. -/
def byteOf (value i : Nat) : BitVec 8 :=
  BitVec.ofNat 8 (value / 256 ^ i)

theorem littleEndian_lt
    (bytes : Nat → BitVec 8) (start count : Nat) :
    littleEndian bytes start count < 256 ^ count := by
  induction count generalizing start with
  | zero => exact Nat.one_pos
  | succ count induction =>
      have low := (bytes start).isLt
      have high := induction (start + 1)
      rw [littleEndian, Nat.pow_succ]
      omega

theorem littleEndian_congr
    {bytes others : Nat → BitVec 8} {start otherStart count : Nat}
    (same : ∀ i < count, bytes (start + i) = others (otherStart + i)) :
    littleEndian bytes start count =
      littleEndian others otherStart count := by
  induction count generalizing start otherStart with
  | zero => rfl
  | succ count induction =>
      have first : bytes start = others otherStart :=
        same 0 (Nat.succ_pos _)
      have later :
          ∀ i < count, bytes (start + 1 + i) = others (otherStart + 1 + i) := by
        intro i inside
        have next := same (i + 1) (by omega)
        rwa [Nat.add_comm i, ← Nat.add_assoc, ← Nat.add_assoc] at next
      rw [littleEndian, littleEndian, first, induction later]

/-- A number in two parts. -/
theorem littleEndian_add
    (bytes : Nat → BitVec 8) (start low high : Nat) :
    littleEndian bytes start (low + high) =
      littleEndian bytes start low +
        256 ^ low * littleEndian bytes (start + low) high := by
  induction low generalizing start with
  | zero =>
      rw [littleEndian, Nat.zero_add, Nat.zero_add, Nat.pow_zero, Nat.one_mul]
      rfl
  | succ low induction =>
      have order : low + 1 + high = low + high + 1 := by omega
      have place : start + 1 + low = start + (low + 1) := by omega
      rw [order, littleEndian, littleEndian, induction, place]
      ring

/-- A number stored byte by byte is read back. -/
theorem littleEndian_of_byteOf
    {bytes : Nat → BitVec 8} {start count value : Nat}
    (stored : ∀ i < count, bytes (start + i) = byteOf value i)
    (fits : value < 256 ^ count) :
    littleEndian bytes start count = value := by
  induction count generalizing start value with
  | zero =>
      rw [littleEndian]
      omega
  | succ count induction =>
      have first := stored 0 (Nat.succ_pos _)
      have later :
          ∀ i < count, bytes (start + 1 + i) = byteOf (value / 256) i := by
        intro i inside
        have next := stored (i + 1) (by omega)
        rw [Nat.add_comm i, ← Nat.add_assoc] at next
        rw [next, byteOf, byteOf, Nat.div_div_eq_div_mul, Nat.pow_add,
          Nat.pow_one]
      rw [Nat.pow_succ] at fits
      rw [littleEndian, induction later (by omega), ← Nat.add_zero start,
        first]
      simp only [byteOf, BitVec.toNat_ofNat, Nat.pow_zero, Nat.div_one]
      omega

/-! ## Stores -/

/-- Memory after a number was stored in `count` bytes. -/
def store (bytes : Nat → BitVec 8) (start count value : Nat) :
    Nat → BitVec 8 := fun k =>
  if start ≤ k ∧ k < start + count then byteOf value (k - start)
  else bytes k

variable {bytes : Nat → BitVec 8} {start count value : Nat}

theorem store_inside {i : Nat} (inside : i < count) :
    store bytes start count value (start + i) = byteOf value i := by
  rw [store, if_pos ⟨Nat.le_add_right _ _, Nat.add_lt_add_left inside _⟩,
    Nat.add_sub_cancel_left]

theorem store_outside {k : Nat} (outside : k < start ∨ start + count ≤ k) :
    store bytes start count value k = bytes k := by
  rw [store, if_neg]
  rintro ⟨notBelow, notAbove⟩
  omega

/-- Only the bytes which are kept decide what is stored. -/
theorem byteOf_mod {i : Nat} (kept : i < count) :
    byteOf (value % 256 ^ count) i = byteOf value i := by
  have split : 256 ^ count = 256 ^ i * (256 * 256 ^ (count - i - 1)) := by
    rw [← Nat.pow_succ', ← Nat.pow_add]
    congr 1
    omega
  apply BitVec.eq_of_toNat_eq
  rw [byteOf, byteOf, BitVec.toNat_ofNat, BitVec.toNat_ofNat, split,
    Nat.mod_mul_right_div_self]
  exact Nat.mod_mul_right_mod _ _ _

theorem store_mod :
    store bytes start count (value % 256 ^ count) =
      store bytes start count value := by
  funext k
  by_cases inside : start ≤ k ∧ k < start + count
  · rw [store, store, if_pos inside, if_pos inside]
    exact byteOf_mod (by omega)
  · rw [store, store, if_neg inside, if_neg inside]

/-- A number is read back where it was stored. -/
theorem littleEndian_store :
    littleEndian (store bytes start count value) start count =
      value % 256 ^ count := by
  apply littleEndian_of_byteOf
  · intro i inside
    rw [store_inside inside, byteOf_mod inside]
  · exact Nat.mod_lt _ (Nat.pow_pos (by decide))

/-- A store leaves the numbers beside it. -/
theorem littleEndian_store_of_apart {other length : Nat}
    (apart : other + length ≤ start ∨ start + count ≤ other) :
    littleEndian (store bytes start count value) other length =
      littleEndian bytes other length := by
  apply littleEndian_congr
  intro i inside
  exact store_outside (by omega)

end NopOS.Lib.LittleEndian
