import NopOS.Mmu.AddressTranslation

/-!
# The address members of page-table entries

The getters and setters of the six entry structures, against the frame which
the processor takes from an entry.  A member of 40 bits is shifted as a `u64`.
Those of 31 and 22 bits fit in an `int`, to which they are promoted before the
shift.
-/

namespace NopOS.Mmu.EntryAccessors

open NopOS.Lib.BitField
open NopOS.Mmu.PageTableEntry
open NopOS.Mmu.AddressTranslation

/-! ## The accessors -/

/-- `pte::page()`. -/
def ptePage (entry : U64) : U64 := pte.pointer entry

/-- `pdpte1g::addr`. -/
def pdpte1gAddr : Field 64 := { offset := 30, width := 22 }

/-- `pdpte1g::page()`: the promoted member is shifted as an `int`. -/
def pdpte1gPage (entry : U64) : U64 :=
  ((pdpte1gAddr.get entry).setWidth 32 <<< 30).signExtend 64

/-- `pdpte1g::page(u8*)`. -/
def pdpte1gSetPage (entry ptr : U64) : U64 :=
  pdpte1gAddr.set entry ((ptr >>> 30).setWidth pdpte1gAddr.width)

/-- The six structures. -/
inductive EntryKind where
  | pml4e
  | pdptePd
  | pdpte1g
  | pdePt
  | pde2m
  | pte
deriving DecidableEq

namespace EntryKind

/-- `PDPTptr()`, `pd()`, `pt()` or `page()`. -/
def getter : EntryKind → U64 → U64
  | pml4e => pml4ePDPTptr
  | pdptePd => pdptePdPd
  | pdpte1g => pdpte1gPage
  | pdePt => pdePtPt
  | pde2m => pde2mPage
  | pte => ptePage

/-- The same with an argument, which `pde2m` lacks. -/
def setter : EntryKind → Option (U64 → U64 → U64)
  | pml4e => some PageTableEntry.pml4e.setPointer
  | pdptePd => some PageTableEntry.pdptePd.setPointer
  | pdpte1g => some pdpte1gSetPage
  | pdePt => some PageTableEntry.pdePt.setPointer
  | pde2m => none
  | pte => some PageTableEntry.pte.setPointer

/-- The member which holds the address. -/
def member : EntryKind → Field 64
  | pml4e => PageTableEntry.pml4e.addr
  | pdptePd => PageTableEntry.pdptePd.addr
  | pdpte1g => pdpte1gAddr
  | pdePt => PageTableEntry.pdePt.addr
  | pde2m => pde2mAddr
  | pte => PageTableEntry.pte.addr

/-- The lowest bit of the frame in an entry of the architecture. -/
def span : EntryKind → Nat
  | pdpte1g => 30
  | pde2m => 21
  | _ => 12

end EntryKind

/-- The accessors agree with the architecture on an entry and an address. -/
structure Matches (kind : EntryKind) (entry address : U64) : Prop where
  getter : (kind.getter entry).toNat = frameBase kind.span entry
  setter :
    ∀ set ∈ kind.setter,
      kind.getter (set entry address) = address ∧
        ∀ bit, ¬ kind.member.Covers bit →
          (set entry address).getLsbD bit = entry.getLsbD bit

/-- The frames which survive a shift of an `int`. -/
def Survives (kind : EntryKind) (entry address : U64) : Prop :=
  match kind with
  | .pde2m => frameBase 21 entry = 0
  | .pdpte1g => frameBase 30 entry < 2 ^ 31 ∧ address.toNat < 2 ^ 31
  | _ => True

/-! ## Members which are promoted -/

/-- A promoted member is shifted in 32 bits, and its sign extended. -/
theorem toNat_signExtend_shiftLeft
    {width : Nat} (value : BitVec width) (narrow : width ≤ 32)
    (shift : Nat) :
    ((value.setWidth 32 <<< shift).signExtend 64).toNat =
      let low := value.toNat * 2 ^ shift % 2 ^ 32
      if low < 2 ^ 31 then low else 2 ^ 64 - 2 ^ 32 + low := by
  have low :
      (value.setWidth 32 <<< shift).toNat = value.toNat * 2 ^ shift % 2 ^ 32 := by
    rw [BitVec.toNat_shiftLeft, BitVec.toNat_setWidth_of_le narrow,
      Nat.shiftLeft_eq]
  simp only
  by_cases positive : value.toNat * 2 ^ shift % 2 ^ 32 < 2 ^ 31
  · have msb : (value.setWidth 32 <<< shift).msb = false := by
      rw [BitVec.msb_eq_false_iff_two_mul_lt, low]
      omega
    rw [if_pos positive, ← low, BitVec.signExtend_eq_setWidth_of_msb_false msb,
      BitVec.toNat_setWidth_of_le (by decide)]
  · have msb : (value.setWidth 32 <<< shift).msb = true := by
      rw [BitVec.msb_eq_true_iff_two_mul_ge, low]
      omega
    rw [if_neg positive, ← low, BitVec.toNat_signExtend, msb]
    simp
    omega

/-- The getter of a 1 GiB page shifts an `int`, which holds 2 GiB. -/
theorem getter_pdpte1g_iff (entry : U64) :
    (pdpte1gPage entry).toNat = frameBase 30 entry ↔
      frameBase 30 entry < 2 ^ 31 := by
  have value :
      (pdpte1gAddr.get entry).toNat * 2 ^ 30 = frameBase 30 entry := by
    rw [Field.toNat_get, frameBase]
    simp only [pdpte1gAddr]
    omega
  have physical : frameBase 30 entry < 2 ^ 52 := by
    rw [frameBase]
    omega
  rw [pdpte1gPage, toNat_signExtend_shiftLeft _ (by decide), value]
  simp only
  split <;> omega

/-- The getter of a 2 MiB page shifts by one bit too few. -/
theorem getter_pde2m_iff (entry : U64) :
    (pde2mPage entry).toNat = frameBase 21 entry ↔
      frameBase 21 entry = 0 := by
  have value :
      (pde2mAddr.get entry).toNat * 2 ^ 20 * 2 = frameBase 21 entry := by
    rw [Field.toNat_get, frameBase]
    simp only [pde2mAddr]
    omega
  have physical : frameBase 21 entry < 2 ^ 52 := by
    rw [frameBase]
    omega
  rw [pde2mPage, toNat_signExtend_shiftLeft _ (by decide)]
  simp only
  split <;> omega

/-- The frame of an entry whose address was set to one of 1 GiB pages. -/
theorem frameBase_pdpte1gSetPage
    (entry : U64) {address : U64} (aligned : 2 ^ 30 ∣ address.toNat)
    (physical : address.toNat < 2 ^ 52) :
    frameBase 30 (pdpte1gSetPage entry address) = address.toNat := by
  have value :
      (pdpte1gAddr.get (pdpte1gSetPage entry address)).toNat =
        address.toNat / 2 ^ 30 := by
    rw [pdpte1gSetPage, Field.get_set, BitVec.toNat_setWidth,
      BitVec.toNat_ushiftRight, Nat.shiftRight_eq_div_pow]
    simp only [pdpte1gAddr]
    omega
  rw [Field.toNat_get] at value
  simp only [pdpte1gAddr] at value
  rw [frameBase]
  omega

/-! ## The six structures -/

/-- The four structures with a member of 40 bits. -/
theorem matches_standard
    (kind : EntryKind) {layout : FrameEntry}
    (standard : layout = FrameEntry.standard)
    (getter : kind.getter = layout.pointer)
    (setter : kind.setter = some layout.setPointer)
    (member : kind.member = layout.addr) (span : kind.span = 12)
    (entry : U64) {address : U64} (aligned : 2 ^ kind.span ∣ address.toNat)
    (physical : address.toNat < 2 ^ 52) : Matches kind entry address where
  getter := by
    rw [getter, standard, span, FrameEntry.toNat_pointer, frameBase]
  setter := by
    rw [span] at aligned
    rw [setter, getter, member, standard]
    rintro set ⟨⟩
    refine ⟨FrameEntry.pointer_setPointer entry address aligned physical, ?_⟩
    intro bit outside
    exact Field.getLsbD_set_of_not_covers _ _ _ outside

/-- The accessors of a 1 GiB page match below 2 GiB. -/
theorem matches_pdpte1g_iff
    (entry : U64) {address : U64} (aligned : 2 ^ 30 ∣ address.toNat)
    (physical : address.toNat < 2 ^ 52) :
    Matches .pdpte1g entry address ↔
      frameBase 30 entry < 2 ^ 31 ∧ address.toNat < 2 ^ 31 := by
  have frame := frameBase_pdpte1gSetPage entry aligned physical
  have ownFrame := getter_pdpte1g_iff entry
  have setFrame := getter_pdpte1g_iff (pdpte1gSetPage entry address)
  rw [frame] at setFrame
  constructor
  · intro both
    have roundTrip := (both.setter _ rfl).1
    exact ⟨ownFrame.mp both.getter,
      setFrame.mp (congrArg BitVec.toNat roundTrip)⟩
  · rintro ⟨own, small⟩
    refine ⟨ownFrame.mpr own, ?_⟩
    rintro set ⟨⟩
    refine ⟨BitVec.eq_of_toNat_eq (setFrame.mpr small), ?_⟩
    intro bit outside
    exact Field.getLsbD_set_of_not_covers _ _ _ outside

/-- The accessors of a 2 MiB page match at address zero. -/
theorem matches_pde2m_iff (entry address : U64) :
    Matches .pde2m entry address ↔ frameBase 21 entry = 0 := by
  rw [← getter_pde2m_iff]
  constructor
  · exact fun both => both.getter
  · exact fun getter => ⟨getter, nofun⟩

/-- The accessors of a kind agree with the architecture if and only if the
frames survive the arithmetic of the kind. -/
theorem entry_accessors_match_iff
    (kind : EntryKind) (entry address : U64)
    (aligned : 2 ^ kind.span ∣ address.toNat)
    (physical : address.toNat < 2 ^ 52) :
    Matches kind entry address ↔ Survives kind entry address := by
  cases kind with
  | pdpte1g => exact matches_pdpte1g_iff entry aligned physical
  | pde2m => exact matches_pde2m_iff entry address
  | pml4e =>
      exact iff_of_true
        (matches_standard .pml4e pml4e_eq_standard rfl rfl rfl rfl entry aligned
          physical) trivial
  | pdptePd =>
      exact iff_of_true
        (matches_standard .pdptePd pdptePd_eq_standard rfl rfl rfl rfl entry aligned
          physical) trivial
  | pdePt =>
      exact iff_of_true
        (matches_standard .pdePt pdePt_eq_standard rfl rfl rfl rfl entry aligned
          physical) trivial
  | pte =>
      exact iff_of_true
        (matches_standard .pte pte_eq_standard rfl rfl rfl rfl entry aligned
          physical) trivial

/-- An entry of the root table that is already in use. -/
theorem entry_accessors_match_iff_pml4e :
    2 ^ EntryKind.pml4e.span ∣ (0x200000 : U64).toNat ∧
      (0x200000 : U64).toNat < 2 ^ 52 ∧
        (Matches .pml4e 0x103 0x200000 ↔ Survives .pml4e 0x103 0x200000) :=
  ⟨by decide, by decide,
    entry_accessors_match_iff .pml4e 0x103 0x200000 (by decide) (by decide)⟩

/-- The page at 2 MiB is read at 1 MiB, and the page at 4 GiB at 0. -/
theorem large_page_frames_misread :
    pde2mPage 0x200083 = 0x100000 ∧ frameBase 21 0x200083 = 0x200000 ∧
      ¬ Matches .pde2m 0x200083 0 ∧
        pdpte1gPage 0x100000083 = 0 ∧
          frameBase 30 0x100000083 = 0x100000000 ∧
            ¬ Matches .pdpte1g 0x100000083 0 := by
  refine ⟨by decide, by decide, ?_, by decide, by decide, ?_⟩
  · intro both
    exact absurd both.getter (by decide)
  · intro both
    exact absurd both.getter (by decide)

end NopOS.Mmu.EntryAccessors
