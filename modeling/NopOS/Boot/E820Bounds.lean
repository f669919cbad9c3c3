import NopOS.Boot.E820

/-!
# The e820 reader on arbitrary buffers

`for_each_e820_entry` compares the start of an entry with the end of the
buffer and moves on by a size found in the buffer.  It stays in the buffer and
ends exactly on a buffer which is a row of whole entries, none of which has
the size for which the 32-bit sum is zero.
-/

namespace NopOS.Boot.E820Bounds

open NopOS.Lib.LittleEndian
open NopOS.Boot.E820

/-- `sizeof(e820ent)`. -/
def sizeofEnt : Nat := 24

/-- Where the first turns of the loop find the entries which they look at. -/
def inspectedLoop (buffer : Memory) (size : U32) :
    Nat → Nat → List Nat
  | 0, _ => []
  | fuel + 1, p =>
      if p < size.toNat then
        p :: inspectedLoop buffer size fuel (p + stride (entAt buffer p))
      else []

/-- The loop ends, and every entry it looks at lies in the buffer. -/
structure Robust (buffer : Memory) (size : U32) (p : Nat) : Prop where
  terminates : ∃ fuel ents, forEachLoop buffer size fuel p = some ents
  inBuffer :
    ∀ fuel, ∀ q ∈ inspectedLoop buffer size fuel p,
      q + sizeofEnt ≤ size.toNat

/-- From an offset on the buffer is a row of whole entries.  The last one may
claim to be longer than the buffer. -/
inductive RowOfEntries (buffer : Memory) (size : U32) : Nat → Prop where
  | stop {p : Nat} (beyond : size.toNat ≤ p) : RowOfEntries buffer size p
  | entry
      {p : Nat} (whole : p + sizeofEnt ≤ size.toNat)
      (moves : (entAt buffer p).entSize ≠ 0xFFFFFFFC)
      (later :
        RowOfEntries buffer size (p + stride (entAt buffer p))) :
      RowOfEntries buffer size p

/-- One size makes the scan stand still. -/
theorem stride_eq_zero_iff (ent : E820ent) :
    stride ent = 0 ↔ ent.entSize = 0xFFFFFFFC := by
  rw [stride]
  constructor
  · intro still
    apply BitVec.eq_of_toNat_eq
    have below := ent.entSize.isLt
    simp only [BitVec.toNat_add, BitVec.reduceToNat] at still ⊢
    omega
  · intro same
    rw [same]
    rfl

/-! ## One turn -/

section Turn

variable {buffer : Memory} {size : U32} {p : Nat}

theorem terminates_beyond (beyond : size.toNat ≤ p) :
    Robust buffer size p where
  terminates := by
    refine ⟨1, [], ?_⟩
    rw [forEachLoop, if_neg (Nat.not_lt.2 beyond)]
  inBuffer := by
    intro fuel q member
    cases fuel with
    | zero => cases member
    | succ fuel =>
        rw [inspectedLoop, if_neg (Nat.not_lt.2 beyond)] at member
        cases member

/-- Inside the buffer a turn looks at one entry and goes on. -/
theorem robust_inside_iff (inside : p < size.toNat) :
    Robust buffer size p ↔
      p + sizeofEnt ≤ size.toNat ∧
        Robust buffer size (p + stride (entAt buffer p)) := by
  constructor
  · rintro ⟨⟨fuel, ents, ends⟩, inBuffer⟩
    refine ⟨inBuffer 1 p ?_, ⟨?_, ?_⟩⟩
    · rw [inspectedLoop, if_pos inside]
      exact List.mem_cons_self
    · cases fuel with
      | zero => cases ends
      | succ fuel =>
          rw [forEachLoop, if_pos inside] at ends
          simp only at ends
          split at ends
          · rcases Option.map_eq_some_iff.1 ends with ⟨later, ends, -⟩
            exact ⟨fuel, later, ends⟩
          · exact ⟨fuel, ents, ends⟩
    · intro turns q member
      apply inBuffer (turns + 1) q
      rw [inspectedLoop, if_pos inside]
      exact List.mem_cons_of_mem _ member
  · rintro ⟨whole, ⟨fuel, ents, ends⟩, inBuffer⟩
    refine ⟨⟨fuel + 1, ?_⟩, ?_⟩
    · rw [forEachLoop, if_pos inside]
      simp only [ends, Option.map_some]
      split
      · exact ⟨_, rfl⟩
      · exact ⟨_, rfl⟩
    · intro turns q member
      cases turns with
      | zero => cases member
      | succ turns =>
          rw [inspectedLoop, if_pos inside] at member
          rcases List.mem_cons.1 member with rfl | member
          · exact whole
          · exact inBuffer turns q member

end Turn

/-! ## The loop -/

/-- A loop which ends looked at a row of entries. -/
theorem rowOfEntries_of_robust
    {buffer : Memory} {size : U32} (fuel : Nat) {p : Nat}
    {ents : List E820ent}
    (ends : forEachLoop buffer size fuel p = some ents)
    (robust : Robust buffer size p) : RowOfEntries buffer size p := by
  induction fuel generalizing p ents with
  | zero => cases ends
  | succ fuel induction =>
      by_cases inside : p < size.toNat
      · rcases (robust_inside_iff inside).1 robust with ⟨whole, later⟩
        have row :
            RowOfEntries buffer size (p + stride (entAt buffer p)) := by
          rw [forEachLoop, if_pos inside] at ends
          simp only at ends
          split at ends
          · rcases Option.map_eq_some_iff.1 ends with ⟨_, ends, -⟩
            exact induction ends later
          · exact induction ends later
        by_cases moves : (entAt buffer p).entSize = 0xFFFFFFFC
        · -- the next turn starts here again, so the rest decides
          rw [(stride_eq_zero_iff _).2 moves, Nat.add_zero] at row
          exact row
        · exact .entry whole moves row
      · exact .stop (Nat.not_lt.1 inside)

/-- A row of entries is scanned to its end, by induction on the row. -/
theorem robust_of_rowOfEntries
    {buffer : Memory} {size : U32} {p : Nat}
    (row : RowOfEntries buffer size p) : Robust buffer size p := by
  induction row with
  | stop beyond => exact terminates_beyond beyond
  | @entry p whole _ _ induction =>
      have inside : p < size.toNat := by
        rw [sizeofEnt] at whole
        omega
      exact (robust_inside_iff inside).2 ⟨whole, induction⟩

/-- And only a row of entries is. -/
theorem robust_iff (buffer : Memory) (size : U32) (p : Nat) :
    Robust buffer size p ↔ RowOfEntries buffer size p := by
  constructor
  · intro robust
    rcases robust.terminates with ⟨fuel, ents, ends⟩
    exact rowOfEntries_of_robust fuel ends robust
  · exact robust_of_rowOfEntries

/-- The reader stays in the buffer and ends exactly on a row of entries. -/
theorem for_each_e820_robust_iff (buffer : Memory) (size : U32) :
    ((∃ fuel ents, forEachLoop buffer size fuel 0 = some ents) ∧
        ∀ fuel, ∀ p ∈ inspectedLoop buffer size fuel 0,
          p + sizeofEnt ≤ size.toNat) ↔
      RowOfEntries buffer size 0 := by
  rw [← robust_iff]
  constructor
  · rintro ⟨terminates, inBuffer⟩
    exact ⟨terminates, inBuffer⟩
  · intro robust
    exact ⟨robust.terminates, robust.inBuffer⟩

/-- A whole entry with the size `0xFFFFFFFC`. -/
def stuckBuffer : Memory := fun k => if k = 0 then 0xFC else 0xFF

/-- The loop does not get over an entry of that size. -/
theorem stuck_buffer_never_ends :
    ¬ ((∃ fuel ents, forEachLoop stuckBuffer 24 fuel 0 = some ents) ∧
        ∀ fuel, ∀ p ∈ inspectedLoop stuckBuffer 24 fuel 0,
          p + sizeofEnt ≤ (24 : U32).toNat) := by
  rintro ⟨terminates, inBuffer⟩
  have row := (robust_iff stuckBuffer 24 0).1 ⟨terminates, inBuffer⟩
  cases row with
  | stop beyond => exact absurd beyond (by decide)
  | entry _ moves _ => exact absurd moves (by decide)

end NopOS.Boot.E820Bounds
