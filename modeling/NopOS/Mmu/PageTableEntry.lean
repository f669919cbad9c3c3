import NopOS.Lib.BitField

/-!
# Page-table entries and virtual addresses of `pagetable.hh`

The packed structures of `pagetable.hh` are 64-bit words, and each of their
members is a bit-field of such a word.  Only the members which the mapper and
the address constructors use are modelled.

The C++ promotion rules decide the type in which a bit-field is shifted.  A
40-bit `u64` member keeps its type, so its shift is a 64-bit shift.  The
31-bit member of `pde2m` fits in `int` and is promoted: its shift is a 32-bit
shift, and turning the result into a pointer extends its sign.
-/

namespace NopOS.Mmu.PageTableEntry

open NopOS.Lib.BitField

/-- A 64-bit machine word. -/
abbrev U64 := BitVec 64

/-- A table has a first entry. -/
instance neZeroEntries : NeZero 512 := ⟨by decide⟩

/-- The members used of an entry which names a 4 KiB frame. -/
structure FrameEntry where
  present : Field 64
  readWrite : Field 64
  addr : Field 64
  addrOffset : Nat

namespace FrameEntry

/-- Assignment of 1 to the `present` member. -/
def setPresent (layout : FrameEntry) (entry : U64) : U64 :=
  layout.present.set entry 1

/-- Assignment of 1 to the `readWrite` member. -/
def setReadWrite (layout : FrameEntry) (entry : U64) : U64 :=
  layout.readWrite.set entry 1

/-- `addr << addrOffset()`, shifted as a `u64`. -/
def pointer (layout : FrameEntry) (entry : U64) : U64 :=
  (layout.addr.get entry).setWidth 64 <<< layout.addrOffset

/-- `addr = u64(p) >> addrOffset()`, truncated by the bit-field. -/
def setPointer (layout : FrameEntry) (entry pointer : U64) : U64 :=
  layout.addr.set entry
    ((pointer >>> layout.addrOffset).setWidth layout.addr.width)

/-- Layout common to the four structures which name a 4 KiB frame. -/
def standard : FrameEntry where
  present := .flag 0 (by decide)
  readWrite := .flag 1 (by decide)
  addr := { offset := 12, width := 40 }
  addrOffset := 12

end FrameEntry

/-! ## The entry structures -/

/-- `struct pml4e`. -/
def pml4e : FrameEntry where
  present := .flag 0 (by decide)
  readWrite := .flag 1 (by decide)
  addr := { offset := 12, width := 40 }
  addrOffset := 12

/-- `pml4e::PDPTptr()`. -/
def pml4ePDPTptr (entry : U64) : U64 := pml4e.pointer entry

/-- `struct pdpte_pd`. -/
def pdptePd : FrameEntry where
  present := .flag 0 (by decide)
  readWrite := .flag 1 (by decide)
  addr := { offset := 12, width := 40 }
  addrOffset := 12

/-- `pdpte_pd::pd()`. -/
def pdptePdPd (entry : U64) : U64 := pdptePd.pointer entry

/-- `struct pde_pt`. -/
def pdePt : FrameEntry where
  present := .flag 0 (by decide)
  readWrite := .flag 1 (by decide)
  addr := { offset := 12, width := 40 }
  addrOffset := 12

/-- `pde_pt::pt()`. -/
def pdePtPt (entry : U64) : U64 := pdePt.pointer entry

/-- `struct pte`. -/
def pte : FrameEntry where
  present := .flag 0 (by decide)
  readWrite := .flag 1 (by decide)
  addr := { offset := 12, width := 40 }
  addrOffset := 12

/-- Four of the layouts have their fields at the same bits. -/
@[simp]
theorem pml4e_eq_standard : pml4e = FrameEntry.standard := rfl

@[simp]
theorem pdptePd_eq_standard : pdptePd = FrameEntry.standard := rfl

@[simp]
theorem pdePt_eq_standard : pdePt = FrameEntry.standard := rfl

@[simp]
theorem pte_eq_standard : pte = FrameEntry.standard := rfl

/-- The `PS` member, at the same position in `pde2m` and `pdpte1g`. -/
def pageSize : Field 64 := .flag 7 (by decide)

/-- `pde2m::addr`. -/
def pde2mAddr : Field 64 := { offset := 21, width := 31 }

/-- `pde2m::page()`: the promoted member is shifted by 20 as an `int`. -/
def pde2mPage (entry : U64) : U64 :=
  ((pde2mAddr.get entry).setWidth 32 <<< 20).signExtend 64

/-- `enum class pd_type`. -/
inductive PdType where
  | PD_2M
  | PD_PT
deriving DecidableEq

/-- `pde::type()`. -/
def pdeType (entry : U64) : PdType :=
  if pageSize.get entry ≠ 0 then .PD_2M else .PD_PT

/-- `pde::type(pd_type)`. -/
def pdeSetType (entry : U64) (typ : PdType) : U64 :=
  pageSize.set entry (if typ = .PD_2M then 1 else 0)

/--
`pde::page()`.  The assertions of `to_2m` and `to_pt` repeat the type test
which selects them, and the final `__builtin_abort` is not reached.
-/
def pdePage (entry : U64) : U64 :=
  match pdeType entry with
  | .PD_2M => pde2mPage entry
  | .PD_PT => pdePtPt entry

/-- `enum class pdpt_type`. -/
inductive PdptType where
  | PDPT_1G
  | PDPT_PD
deriving DecidableEq

/-- `pdpte::type()`. -/
def pdpteType (entry : U64) : PdptType :=
  if pageSize.get entry ≠ 0 then .PDPT_1G else .PDPT_PD

/-- `cr3::PML4`. -/
def cr3PML4 : Field 64 := { offset := 12, width := 40 }

/-- `cr3::PML4ptr()`. -/
def cr3PML4ptr (cr3 : U64) : U64 :=
  (cr3PML4.get cr3).setWidth 64 <<< 12

/-! ## Effect of the assignments on an entry -/

namespace FrameEntry

/-- The pointer of an entry is its bits 12 to 51. -/
theorem toNat_pointer (entry : U64) :
    (standard.pointer entry).toNat =
      entry.toNat % 2 ^ 52 / 2 ^ 12 * 2 ^ 12 := by
  have bound := entry.isLt
  simp only [pointer, standard, BitVec.toNat_shiftLeft,
    BitVec.toNat_setWidth, Field.toNat_get, Nat.shiftLeft_eq]
  omega

/-- An aligned physical address survives the 40-bit field. -/
theorem pointer_setPointer
    (entry address : U64)
    (aligned : 4096 ∣ address.toNat) (physical : address.toNat < 2 ^ 52) :
    standard.pointer (standard.setPointer entry address) = address := by
  apply BitVec.eq_of_toNat_eq
  simp only [pointer, setPointer, Field.get_set]
  simp only [standard, BitVec.toNat_shiftLeft, BitVec.toNat_setWidth,
    BitVec.toNat_ushiftRight, Nat.shiftLeft_eq, Nat.shiftRight_eq_div_pow]
  omega

theorem getLsbD_setPresent (entry : U64) (bit : Nat) :
    (standard.setPresent entry).getLsbD bit =
      (decide (bit = 0) || entry.getLsbD bit) :=
  Field.getLsbD_set_flag 0 (by decide) entry bit

theorem getLsbD_setReadWrite (entry : U64) (bit : Nat) :
    (standard.setReadWrite entry).getLsbD bit =
      (decide (bit = 1) || entry.getLsbD bit) :=
  Field.getLsbD_set_flag 1 (by decide) entry bit

/-- The low twelve bits are not part of the address. -/
theorem getLsbD_setPointer_low
    (entry address : U64) {bit : Nat} (low : bit < 12) :
    (standard.setPointer entry address).getLsbD bit = entry.getLsbD bit := by
  apply Field.getLsbD_set_of_not_covers
  simp only [Field.Covers, standard]
  omega

theorem setPresent_eq_self
    {entry : U64} (present : entry.getLsbD 0 = true) :
    standard.setPresent entry = entry :=
  Field.set_eq_self _ entry 1
    ((Field.get_flag_eq_one_iff 0 (by decide) entry).2 present)

theorem setReadWrite_eq_self
    {entry : U64} (writable : entry.getLsbD 1 = true) :
    standard.setReadWrite entry = entry :=
  Field.set_eq_self _ entry 1
    ((Field.get_flag_eq_one_iff 1 (by decide) entry).2 writable)

end FrameEntry

/-- Bit 7 tells a large page from a table. -/
theorem pdeType_eq_PD_2M_iff (entry : U64) :
    pdeType entry = .PD_2M ↔ entry.getLsbD 7 = true := by
  rw [← Field.get_flag_eq_one_iff 7 (by decide) entry]
  change (if pageSize.get entry ≠ 0 then PdType.PD_2M else .PD_PT) = .PD_2M ↔
    pageSize.get entry = 1#1
  generalize pageSize.get entry = size
  revert size
  change ∀ size : BitVec 1,
    (if size ≠ 0 then PdType.PD_2M else .PD_PT) = .PD_2M ↔ size = 1#1
  decide

theorem pdeType_eq_PD_PT_iff (entry : U64) :
    pdeType entry = .PD_PT ↔ entry.getLsbD 7 = false := by
  rw [← Bool.not_eq_true, ← pdeType_eq_PD_2M_iff]
  cases pdeType entry <;> simp

theorem pdpteType_eq_PDPT_PD_iff (entry : U64) :
    pdpteType entry = .PDPT_PD ↔ entry.getLsbD 7 = false := by
  rw [← pdeType_eq_PD_PT_iff, pdpteType, pdeType]
  split <;> simp

/-- Turning an entry into a page-table pointer clears its `PS` bit only. -/
theorem getLsbD_pdeSetType_PD_PT (entry : U64) (bit : Nat) :
    (pdeSetType entry .PD_PT).getLsbD bit =
      (!decide (bit = 7) && entry.getLsbD bit) := by
  by_cases same : bit = 7
  · subst bit
    have inside : 0 < pageSize.width := Nat.one_pos
    have cleared := Field.getLsbD_set_covered pageSize entry 0 inside
    simpa [pdeSetType, pageSize] using cleared
  · have outside : ¬ pageSize.Covers bit := by
      simp only [Field.Covers, pageSize]
      omega
    simp only [pdeSetType, reduceCtorEq, if_false,
      Field.getLsbD_set_of_not_covers pageSize entry 0 outside]
    simp [same]

/-! ## Virtual addresses -/

/-- `struct vaddr`: the 48 overlaid bits followed by the 16-bit extension. -/
structure Vaddr where
  bits : U64
deriving DecidableEq

namespace Vaddr

/-- `vaddr_4k::table`. -/
def tableField : Field 64 := { offset := 12, width := 9 }

/-- `vaddr_4k::directory`. -/
def directoryField : Field 64 := { offset := 21, width := 9 }

/-- `vaddr_4k::directoryPtr`. -/
def directoryPtrField : Field 64 := { offset := 30, width := 9 }

/-- `vaddr_4k::PML4`. -/
def PML4Field : Field 64 := { offset := 39, width := 9 }

/-- `vaddr::extension`. -/
def extensionField : Field 64 := { offset := 48, width := 16 }

/-- The index of an address in its page table: bits 12 to 20. -/
def table (addr : Vaddr) : Fin 512 := (tableField.get addr.bits).toFin

/-- The index of an address in its page directory: bits 21 to 29. -/
def directory (addr : Vaddr) : Fin 512 := (directoryField.get addr.bits).toFin

/-- The index of an address in its directory pointer table: bits 30 to 38. -/
def directoryPtr (addr : Vaddr) : Fin 512 :=
  (directoryPtrField.get addr.bits).toFin

/-- The index of an address in the root table: bits 39 to 47. -/
def PML4 (addr : Vaddr) : Fin 512 := (PML4Field.get addr.bits).toFin

/-- `vaddr::cannoncialize()`. -/
def cannoncialize (addr : Vaddr) : Vaddr :=
  ⟨extensionField.set addr.bits
    (if addr.PML4.val &&& (1 <<< 8) = 0 then 0 else 0xFFFF)⟩

/-- `explicit vaddr(u64)`. -/
def ofU64 (u : U64) : Vaddr := cannoncialize ⟨u⟩

/-- The constructor changes the extension only. -/
theorem get_ofU64
    (field : Field 64) (apart : Field.Apart field extensionField) (u : U64) :
    field.get (ofU64 u).bits = field.get u :=
  Field.get_set_of_apart field extensionField apart u _

/-- The four indices are digits in base 512, above the page offset. -/
theorem table_ofU64 (u : U64) :
    (ofU64 u).table.val = u.toNat / 2 ^ 12 % 512 := by
  change (tableField.get (ofU64 u).bits).toNat = _
  rw [get_ofU64 tableField (by decide), Field.toNat_get]
  rfl

theorem directory_ofU64 (u : U64) :
    (ofU64 u).directory.val = u.toNat / 2 ^ 21 % 512 := by
  change (directoryField.get (ofU64 u).bits).toNat = _
  rw [get_ofU64 directoryField (by decide), Field.toNat_get]
  rfl

theorem directoryPtr_ofU64 (u : U64) :
    (ofU64 u).directoryPtr.val = u.toNat / 2 ^ 30 % 512 := by
  change (directoryPtrField.get (ofU64 u).bits).toNat = _
  rw [get_ofU64 directoryPtrField (by decide), Field.toNat_get]
  rfl

theorem PML4_ofU64 (u : U64) :
    (ofU64 u).PML4.val = u.toNat / 2 ^ 39 % 512 := by
  change (PML4Field.get (ofU64 u).bits).toNat = _
  rw [get_ofU64 PML4Field (by decide), Field.toNat_get]
  rfl

end Vaddr

/-- A canonical address: bits 63 to 48 repeat bit 47. -/
def Canonical (address : U64) : Prop :=
  address.toNat < 2 ^ 47 ∨ 2 ^ 64 - 2 ^ 47 ≤ address.toNat

instance (address : U64) : Decidable (Canonical address) :=
  inferInstanceAs (Decidable (_ ∨ _))

end NopOS.Mmu.PageTableEntry
