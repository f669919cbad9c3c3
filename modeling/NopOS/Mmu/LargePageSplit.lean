import NopOS.Mmu.MapRuns
import NopOS.Mmu.EntryAccessors

/-!
# Splitting a 2 MiB page wherever it is mapped

`break_2m` takes the frame of the page from `pde2m::page()`, which shifts the
31-bit field by 20 where it stands for bits 51 to 21.  The page table it
fills maps the frames from there on.  That is the 2 MiB page again exactly if
the page is the first one of physical memory.
-/

namespace NopOS.Mmu.LargePageSplit

open NopOS.Lib.BitField
open NopOS.Lib.RadixTree
open NopOS.Mmu.PageTableEntry
open NopOS.Mmu.AddressTranslation
open NopOS.Mmu.PhysicalMachine
open NopOS.Mmu.Mapper
open NopOS.Mmu.MapperSteps
open NopOS.Mmu.MapRuns
open NopOS.Mmu.EntryAccessors (toNat_signExtend_shiftLeft)

/-- A present entry of a page directory which maps a 2 MiB page. -/
structure LargePde (entry : U64) : Prop where
  present : entry.getLsbD 0 = true
  large : pdeType entry = .PD_2M
  reserved : ReservedClear 21 entry

/-- The entry of the page table for an offset in 2 MiB. -/
def pageIndex (offset : Nat) : Fin 512 :=
  ⟨offset / 4096 % 512, Nat.mod_lt _ (by decide)⟩

/-- The physical address which a slot of a page directory gives an offset in
its 2 MiB. -/
def physOf (memory : Memory) (pd : Nat) (index : Fin 512) (offset : Nat) :
    Option Nat :=
  (lookupFrom (pageNode memory) 2 pd [index, pageIndex offset]).map
    fun found =>
      frameBase (12 + 9 * found.rest.length) found.value +
        offset % 2 ^ (12 + 9 * found.rest.length)

/-- The allocator has an aligned physical page which does not hold the
slot. -/
structure HasPage (machine : Machine) (slot : Nat) : Prop where
  aligned : 4096 ∣ (nextPage machine).toNat
  physical : (nextPage machine).toNat < 2 ^ 52
  apart :
    ¬ ((nextPage machine).toNat ≤ slot ∧
      slot < (nextPage machine).toNat + 4096)

/-- After `break_2m` the entry names a page table through which every offset
is found where the large page had it. -/
def PreservesTranslation (machine : Machine) (pd : Nat) (index : Fin 512) :
    Prop :=
  ∃ after,
    break2m (slotAddress pd index) machine = .ok () after ∧
      pdeType (after.memory (slotAddress pd index)) = .PD_PT ∧
      ∀ offset < 2 ^ 21,
        physOf after.memory pd index offset =
            some
              (frameBase 21 (machine.memory (slotAddress pd index)) +
                offset) ∧
          physOf after.memory pd index offset =
            physOf machine.memory pd index offset

/-! ## The frame which `page()` computes -/

theorem toNat_pde2mAddr (entry : U64) :
    (pde2mAddr.get entry).toNat = frameBase 21 entry / 2 ^ 21 := by
  rw [Field.toNat_get, frameBase]
  simp only [pde2mAddr]
  omega

/-- The address that the getter returns, as an `int` shift. -/
theorem toNat_pde2mPage (entry : U64) :
    (pde2mPage entry).toNat =
      let low := frameBase 21 entry / 2 ^ 21 * 2 ^ 20 % 2 ^ 32
      if low < 2 ^ 31 then low else 2 ^ 64 - 2 ^ 32 + low := by
  rw [pde2mPage, toNat_signExtend_shiftLeft _ (by decide), toNat_pde2mAddr]

/-- The first frame of the new table is that of the page only for the frame
at 0. -/
theorem frameBase_pde2mPage (entry : U64) :
    (pde2mPage entry).toNat % 2 ^ 52 / 2 ^ 12 * 2 ^ 12 =
        frameBase 21 entry ↔
      frameBase 21 entry = 0 := by
  have span : frameBase 21 entry % 2 ^ 21 = 0 := by
    rw [frameBase]
    omega
  have physical : frameBase 21 entry < 2 ^ 52 := by
    rw [frameBase]
    omega
  rw [toNat_pde2mPage]
  simp only
  split <;> omega

/-! ## What the walk finds -/

section Walk

variable {memory : Memory} {pd : Nat} {index : Fin 512}

/-- A large page translates by its own frame. -/
theorem physOf_of_large
    (large : LargePde (memory (slotAddress pd index)))
    {offset : Nat} (inside : offset < 2 ^ 21) :
    physOf memory pd index offset =
      some (frameBase 21 (memory (slotAddress pd index)) + offset) := by
  have isLarge := (pdeType_eq_PD_2M_iff _).1 large.large
  have reserved : ReservedClear (39 - 9 * 2) _ := large.reserved
  have node :
      pageNode memory 2 pd index =
        .leaf (memory (slotAddress pd index)) := by
    rw [pageNode]
    simp only [large.present, isLarge, reserved]
    rfl
  rw [physOf, lookupFrom, node]
  simp only [Option.map_some, List.length_singleton]
  rw [Nat.mod_eq_of_lt inside]

/-- A small page translates by the frame of its slot. -/
theorem physOf_of_table
    {page offset : Nat}
    (present : (memory (slotAddress pd index)).getLsbD 0 = true)
    (notLarge : (memory (slotAddress pd index)).getLsbD 7 = false)
    (frame : frameBase 12 (memory (slotAddress pd index)) = page)
    (mapped :
      (memory (slotAddress page (pageIndex offset))).getLsbD 0 = true) :
    physOf memory pd index offset =
      some
        (frameBase 12 (memory (slotAddress page (pageIndex offset))) +
          offset % 4096) := by
  have node :
      pageNode memory 2 pd index =
        .child page ((memory (slotAddress pd index)).getLsbD 1) := by
    rw [pageNode]
    simp only [present, notLarge, frame]
    rfl
  rw [physOf, lookupFrom, node]
  simp only
  rw [lookupFrom, pageNode_of_present_last mapped]
  rfl

end Walk

/-! ## The split -/

/-- Through the new table an offset is found from `page()` on. -/
theorem break2m_walk
    {machine : Machine} {pd : Nat} {index : Fin 512}
    (large : LargePde (machine.memory (slotAddress pd index)))
    (hasPage : HasPage machine (slotAddress pd index)) :
    ∃ after,
      break2m (slotAddress pd index) machine = .ok () after ∧
        pdeType (after.memory (slotAddress pd index)) = .PD_PT ∧
        ∀ offset,
          physOf after.memory pd index offset =
            some
              ((pde2mPage (machine.memory (slotAddress pd index)) +
                    BitVec.ofNat 64
                      (4096 * (pageIndex offset).val)).toNat %
                  2 ^ 52 / 2 ^ 12 * 2 ^ 12 +
                offset % 4096) := by
  rcases break2m_run (slotAddress pd index) machine with
    ⟨after, runs, -, -, contents⟩
  rcases
      contents (nextPage machine) rfl hasPage.aligned hasPage.physical
        hasPage.apart with
    ⟨slotEntry, filled, -⟩
  have physical := hasPage.physical
  have aligned := hasPage.aligned
  have lowBit {bit : Nat} (low : bit < 12) :
      (after.memory (slotAddress pd index)).getLsbD bit =
        (!decide (bit = 7) &&
          (machine.memory (slotAddress pd index)).getLsbD bit) := by
    rw [slotEntry, FrameEntry.getLsbD_setPointer_low _ _ low,
      getLsbD_pdeSetType_PD_PT]
  have present :
      (after.memory (slotAddress pd index)).getLsbD 0 = true := by
    rw [lowBit (by decide), large.present]
    rfl
  have notLarge :
      (after.memory (slotAddress pd index)).getLsbD 7 = false := by
    rw [lowBit (by decide)]
    rfl
  have frame :
      frameBase 12 (after.memory (slotAddress pd index)) =
        (nextPage machine).toNat := by
    rw [slotEntry, frameBase_setPointer]
    omega
  have page :
      pdePage (machine.memory (slotAddress pd index)) =
        pde2mPage (machine.memory (slotAddress pd index)) := by
    rw [pdePage, large.large]
  refine ⟨after, runs, (pdeType_eq_PD_PT_iff _).2 notLarge, ?_⟩
  intro offset
  have entry := filled (pageIndex offset)
  have mapped :
      (after.memory
        (slotAddress (nextPage machine).toNat
          (pageIndex offset))).getLsbD 0 = true := by
    rw [entry, pageEntry_getLsbD _ _ (by decide)]
    rfl
  rw [physOf_of_table present notLarge frame mapped, entry, page, pageEntry,
    frameBase_setPointer]

/-- A 2 MiB page is found where it was exactly if it is the first one. -/
theorem break2m_preserves_translation_iff
    {machine : Machine} {pd : Nat} {index : Fin 512}
    (large : LargePde (machine.memory (slotAddress pd index)))
    (hasPage : HasPage machine (slotAddress pd index)) :
    PreservesTranslation machine pd index ↔
      frameBase 21 (machine.memory (slotAddress pd index)) = 0 := by
  rcases break2m_walk large hasPage with ⟨after, runs, type, walks⟩
  constructor
  · rintro ⟨other, otherRuns, -, preserved⟩
    rw [runs] at otherRuns
    cases otherRuns
    have first := (preserved 0 (by decide)).1
    rw [walks] at first
    have noOffset : BitVec.ofNat 64 (4096 * (pageIndex 0).val) = 0#64 := rfl
    rw [noOffset, BitVec.add_zero, Option.some.injEq, Nat.zero_mod,
      Nat.add_zero, Nat.add_zero] at first
    exact (frameBase_pde2mPage _).1 first
  · intro zero
    have pageZero :
        pde2mPage (machine.memory (slotAddress pd index)) = 0#64 := by
      apply BitVec.eq_of_toNat_eq
      rw [toNat_pde2mPage, zero]
      rfl
    refine ⟨after, runs, type, ?_⟩
    intro offset inside
    have found :
        physOf after.memory pd index offset =
          some
            (frameBase 21 (machine.memory (slotAddress pd index)) +
              offset) := by
      rw [walks, pageZero, BitVec.zero_add, BitVec.toNat_ofNat, zero]
      simp only [pageIndex, Option.some.injEq]
      omega
    exact ⟨found, found.trans (physOf_of_large large inside).symm⟩

/-- The page tables of boot, with the page allocator at 10 MiB. -/
theorem hasPage_boot (index : Fin 512) :
    HasPage smallBoot (slotAddress smallImage.identPtL2 index) where
  aligned := by decide
  physical := by decide
  apart := by
    have inPage := slotAddress_mem smallImage.identPtL2 index
    have next : (nextPage smallBoot).toNat = 0x9FF000 := rfl
    have table : smallImage.identPtL2 = 0x212000 := rfl
    omega

/-- The first large page of the boot tables has frame zero. -/
theorem break2m_preserves_translation_iff_boot :
    PreservesTranslation smallBoot smallImage.identPtL2 0 ↔
      frameBase 21
        (smallBoot.memory (slotAddress smallImage.identPtL2 0)) = 0 :=
  break2m_preserves_translation_iff
    (by
      rw [boot_l2]
      exact ⟨by decide, by decide, by decide⟩)
    (hasPage_boot 0)

/-- The second entry of boot maps 2 MiB from 2 MiB on.  Split, it maps them
from 1 MiB on. -/
theorem second_page_moves :
    LargePde (smallBoot.memory (slotAddress smallImage.identPtL2 1)) ∧
      HasPage smallBoot (slotAddress smallImage.identPtL2 1) ∧
      ¬ PreservesTranslation smallBoot smallImage.identPtL2 1 := by
  have large :
      LargePde
        (smallBoot.memory (slotAddress smallImage.identPtL2 1)) := by
    rw [boot_l2]
    exact ⟨by decide, by decide, by decide⟩
  refine ⟨large, hasPage_boot 1, ?_⟩
  rintro ⟨after, runs, -, preserved⟩
  rcases break2m_walk large (hasPage_boot 1) with
    ⟨other, otherRuns, -, walks⟩
  rw [runs] at otherRuns
  cases otherRuns
  have first := (preserved 0 (by decide)).1
  rw [walks, boot_l2] at first
  exact absurd first (by decide)

end NopOS.Mmu.LargePageSplit
