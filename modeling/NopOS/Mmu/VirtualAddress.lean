import Mathlib.Data.Nat.Bitwise
import NopOS.Mmu.PageTableEntry

/-!
# Virtual addresses split and put together

`struct vaddr` overlays three views of the low 48 bits, keeps the extension of
bit 47 in a member of its own, and can be put together from the entries which
a walk visits.  The indices of these are differences of pointers.
-/

namespace NopOS.Mmu.VirtualAddress

open NopOS.Lib.BitField
open NopOS.Mmu.PageTableEntry
open NopOS.Mmu.PageTableEntry.Vaddr

/-! ## The members of `vaddr` -/

/-- `vaddr_4k::offset`. -/
def offsetField : Field 64 := { offset := 0, width := 12 }

/-- `vaddr_2m::directory`. -/
def directory2mField : Field 64 :=
  { offset := 21, width := 9, fits := directoryField.fits }

/-- `vaddr_2m::directoryPtr`. -/
def directoryPtr2mField : Field 64 :=
  { offset := 30, width := 9, fits := directoryPtrField.fits }

/-- `vaddr_2m::PML4`. -/
def PML42mField : Field 64 :=
  { offset := 39, width := 9, fits := PML4Field.fits }

/-- `vaddr_1g::directoryPtr`. -/
def directoryPtr1gField : Field 64 :=
  { offset := 30, width := 9, fits := directoryPtrField.fits }

/-- `vaddr_1g::PML4`. -/
def PML41gField : Field 64 :=
  { offset := 39, width := 9, fits := PML4Field.fits }

/-- `vaddr::to_u64()`. -/
def toU64 (addr : Vaddr) : U64 :=
  if addr.bits &&& (1 <<< 47) ≠ 0 then 0xFFFF800000000000 ||| addr.bits
  else addr.bits

/-- `vaddr::PML4(int)`, unless its assertion fails. -/
def setPML4 (addr : Vaddr) (index : BitVec 32) : Option Vaddr :=
  if index.toInt < 512 ∧ 0 ≤ index.toInt then
    some (cannoncialize ⟨PML4Field.set addr.bits (index.setWidth 9)⟩)
  else none

/-- The words behind pointers. -/
abbrev Words := U64 → U64

/-- `&table[index]`. -/
def entryAt (table : U64) (index : Fin 512) : U64 :=
  table + BitVec.ofNat 64 (8 * index.val)

/-- `entry - table`, for pointers to entries of eight bytes. -/
def entryDifference (entry table : U64) : U64 :=
  (entry - table).sshiftRight 3

/-- `vaddr(cr3, pml4e*, pdpte*, pde*, pte*, u64)`, unless an assertion of
`to_pd` or `to_pt` fails.  The object is not initialised before. -/
def ofEntries
    (memory : Words) (cr3 pml4 pdpt pd pt offset before : U64) :
    Option Vaddr :=
  let bits :=
    PML4Field.set before
      ((entryDifference pml4 (cr3PML4ptr cr3)).setWidth 9)
  let bits :=
    directoryPtrField.set bits
      ((entryDifference pdpt (pml4ePDPTptr (memory pml4))).setWidth 9)
  if pdpteType (memory pdpt) = .PDPT_PD then
    let bits :=
      directoryField.set bits
        ((entryDifference pd (pdptePdPd (memory pdpt))).setWidth 9)
    if pdeType (memory pd) = .PD_PT then
      let bits :=
        tableField.set bits
          ((entryDifference pt (pdePtPt (memory pd))).setWidth 9)
      let bits := offsetField.set bits (offset.setWidth 12)
      some (cannoncialize ⟨bits⟩)
    else none
  else none

/-! ## The extension -/

/-- The fields below the extension stay. -/
theorem get_cannoncialize
    (field : Field 64) (apart : Field.Apart field extensionField)
    (addr : Vaddr) :
    field.get (cannoncialize addr).bits = field.get addr.bits :=
  Field.get_set_of_apart field extensionField apart addr.bits _

/-- The extension repeats bit 47. -/
theorem getLsbD_cannoncialize
    (addr : Vaddr) {bit : Nat} (inWord : bit < 64) :
    (cannoncialize addr).bits.getLsbD bit =
      addr.bits.getLsbD (min bit 47) := by
  have top : addr.PML4.val.testBit 8 = addr.bits.getLsbD 47 := by
    show (PML4Field.get addr.bits).toNat.testBit 8 = _
    rw [BitVec.testBit_toNat, Field.getLsbD_get]
    rfl
  have test :
      addr.PML4.val &&& (1 <<< 8) = 0 ↔ addr.bits.getLsbD 47 = false := by
    rw [← top, Nat.one_shiftLeft, Nat.and_two_pow]
    cases addr.PML4.val.testBit 8 <;> simp
  by_cases low : bit < 48
  · have outside : ¬ extensionField.Covers bit := by
      simp only [Field.Covers, extensionField]
      omega
    rw [cannoncialize, Field.getLsbD_set_of_not_covers _ _ _ outside]
    by_cases atTop : bit = 47
    · rw [atTop]
      rfl
    · rw [min_eq_left (by omega)]
  · have covered : bit - 48 < extensionField.width := by
      simp only [extensionField]
      omega
    have place : extensionField.offset + (bit - 48) = bit := by
      simp only [extensionField]
      omega
    have extension :=
      Field.getLsbD_set_covered extensionField addr.bits
        (if addr.PML4.val &&& (1 <<< 8) = 0 then 0 else 0xFFFF) covered
    rw [place] at extension
    rw [cannoncialize, extension, min_eq_right (by omega)]
    by_cases clear : addr.PML4.val &&& (1 <<< 8) = 0
    · rw [if_pos clear, test.mp clear]
      exact BitVec.getLsbD_zero
    · have ones : (0xFFFF : BitVec 16) = BitVec.allOnes 16 := rfl
      rw [if_neg clear, eq_true_of_ne_false (mt test.mpr clear)]
      exact (congrArg (BitVec.getLsbD · (bit - 48)) ones).trans
        (BitVec.getLsbD_allOnes.trans (decide_eq_true covered))

/-- The sign extension of the low 48 bits. -/
def signExtension (u : U64) : U64 := (u.setWidth 48).signExtend 64

theorem getLsbD_signExtension (u : U64) {bit : Nat} (inWord : bit < 64) :
    (signExtension u).getLsbD bit = u.getLsbD (min bit 47) := by
  rw [signExtension, BitVec.getLsbD_signExtend]
  by_cases low : bit < 48
  · have below : min bit 47 = bit := min_eq_left (by omega)
    simp [inWord, low, below]
  · have top : min bit 47 = 47 := min_eq_right (by omega)
    simp [inWord, low, top, BitVec.msb_eq_getLsbD_last]

/-- `cannoncialize` extends bit 47. -/
theorem bits_cannoncialize (addr : Vaddr) :
    (cannoncialize addr).bits = signExtension addr.bits := by
  apply BitVec.eq_of_getLsbD_eq
  intro bit inWord
  rw [getLsbD_cannoncialize addr inWord, getLsbD_signExtension _ inWord]

/-- `to_u64` extends bit 47, which has no effect on what is canonical. -/
theorem toU64_signExtension (u : U64) :
    toU64 ⟨signExtension u⟩ = signExtension u := by
  have mask : (0xFFFF800000000000 : U64) = BitVec.allOnes 64 <<< 47 := rfl
  have test :
      signExtension u &&& 1 <<< 47 =
        if (signExtension u).getLsbD 47 then BitVec.twoPow 64 47 else 0 :=
    BitVec.and_twoPow _ _
  unfold toU64
  by_cases top : (signExtension u).getLsbD 47
  · rw [test, if_pos top, if_pos (by decide), mask]
    apply BitVec.eq_of_getLsbD_eq
    intro bit inWord
    rw [BitVec.getLsbD_or, BitVec.getLsbD_shiftLeft, BitVec.getLsbD_allOnes]
    by_cases low : bit < 47
    · simp [low]
    · have same :
          (signExtension u).getLsbD bit = (signExtension u).getLsbD 47 := by
        rw [getLsbD_signExtension _ inWord,
          getLsbD_signExtension _ (by decide), min_eq_right (by omega)]
        rfl
      simp [low, same, top]
  · rw [test, if_neg top, if_neg (by decide)]

theorem toU64_cannoncialize (addr : Vaddr) :
    toU64 (cannoncialize addr) = signExtension addr.bits := by
  have whole : cannoncialize addr = ⟨signExtension addr.bits⟩ :=
    congrArg Vaddr.mk (bits_cannoncialize addr)
  rw [whole, toU64_signExtension]

/-- The two halves of the address space. -/
theorem toNat_signExtension (u : U64) :
    (signExtension u).toNat =
      if u.toNat % 2 ^ 48 < 2 ^ 47 then u.toNat % 2 ^ 48
      else 2 ^ 64 - 2 ^ 48 + u.toNat % 2 ^ 48 := by
  have low : (u.setWidth 48).toNat = u.toNat % 2 ^ 48 :=
    BitVec.toNat_setWidth _ _
  rw [signExtension, BitVec.toNat_signExtend, BitVec.toNat_setWidth, low]
  by_cases positive : u.toNat % 2 ^ 48 < 2 ^ 47
  · have msb : (u.setWidth 48).msb = false := by
      rw [BitVec.msb_eq_false_iff_two_mul_lt, low]
      omega
    rw [msb, if_pos positive]
    simp
    omega
  · have msb : (u.setWidth 48).msb = true := by
      rw [BitVec.msb_eq_true_iff_two_mul_ge, low]
      omega
    rw [msb, if_neg positive]
    simp
    omega

theorem canonical_signExtension (u : U64) : Canonical (signExtension u) := by
  rw [Canonical, toNat_signExtension]
  split <;> omega

/-- A canonical address is its own extension. -/
theorem signExtension_of_canonical
    {u : U64} (canonical : Canonical u) : signExtension u = u := by
  have bound := u.isLt
  apply BitVec.eq_of_toNat_eq
  rw [toNat_signExtension]
  rw [Canonical] at canonical
  split <;> omega

/-! ## The views -/

/-- The members of the 4 KiB view below the PML4 index. -/
def lowFields : List (Field 64) :=
  [offsetField, tableField, directoryField, directoryPtrField]

/-- All the fields that one view of an address names, the root index first. -/
def viewFields : List (Field 64) := PML4Field :: lowFields

/-- An address is determined by the members of the 4 KiB view. -/
theorem cannoncialize_eq_of_view
    (first second : Vaddr)
    (same : ∀ field ∈ viewFields,
      field.get first.bits = field.get second.bits) :
    cannoncialize first = cannoncialize second := by
  have sameLow (bit : Nat) (low : bit < 48) :
      first.bits.getLsbD bit = second.bits.getLsbD bit := by
    have covers : ∃ field ∈ viewFields, field.Covers bit := by
      simp only [viewFields, lowFields, List.exists_mem_cons_iff,
        Field.Covers, offsetField, tableField, directoryField,
        directoryPtrField, PML4Field]
      omega
    rcases covers with ⟨field, member, covered⟩
    exact Field.getLsbD_eq_of_get_eq (same field member) covered
  apply congrArg Vaddr.mk
  show (cannoncialize first).bits = (cannoncialize second).bits
  apply BitVec.eq_of_getLsbD_eq
  intro bit inWord
  rw [getLsbD_cannoncialize _ inWord, getLsbD_cannoncialize _ inWord]
  exact sameLow _ (by omega)

/-- The indices of the three views agree. -/
theorem views_agree (addr : Vaddr) :
    (directory2mField.get addr.bits).toFin = addr.directory ∧
      (directoryPtr2mField.get addr.bits).toFin = addr.directoryPtr ∧
        (directoryPtr1gField.get addr.bits).toFin = addr.directoryPtr ∧
          (PML42mField.get addr.bits).toFin = addr.PML4 ∧
            (PML41gField.get addr.bits).toFin = addr.PML4 :=
  ⟨rfl, rfl, rfl, rfl, rfl⟩

/-- An assignment of the PML4 index leaves the other members. -/
theorem setPML4_spec
    (addr : Vaddr) {index : BitVec 32}
    (inside : 0 ≤ index.toInt ∧ index.toInt < 512) :
    ∃ after,
      setPML4 addr index = some after ∧ after.PML4.val = index.toInt ∧
        (∀ field ∈ lowFields,
          field.get after.bits = field.get addr.bits) ∧
          toU64 after = after.bits ∧ Canonical (toU64 after) := by
  have assigned :
      PML4Field.get
          (cannoncialize
            ⟨PML4Field.set addr.bits (index.setWidth 9)⟩).bits =
        index.setWidth 9 :=
    (get_cannoncialize PML4Field (by decide) _).trans
      (Field.get_set PML4Field addr.bits _)
  have value : (PML4Field.get _).toNat = index.toNat % 2 ^ 9 :=
    (congrArg BitVec.toNat assigned).trans (BitVec.toNat_setWidth 9 index)
  refine ⟨_, if_pos inside.symm, ?_, ?_, ?_, ?_⟩
  · show ((PML4Field.get _).toNat : Int) = _
    rw [value]
    rw [BitVec.toInt_eq_toNat_cond] at inside ⊢
    split at inside <;> omega
  · intro field member
    have apart :
        Field.Apart field extensionField ∧ Field.Apart field PML4Field := by
      revert field
      decide
    rw [get_cannoncialize field apart.1]
    exact Field.get_set_of_apart field PML4Field apart.2 addr.bits _
  · rw [toU64_cannoncialize, bits_cannoncialize]
  · rw [toU64_cannoncialize]
    exact canonical_signExtension _

/-! ## Addresses from visited entries -/

theorem entryDifference_entryAt (table : U64) (index : Fin 512) :
    (entryDifference (entryAt table index) table).setWidth 9 =
      BitVec.ofFin index := by
  have bound := index.isLt
  have offset :
      entryAt table index - table = BitVec.ofNat 64 (8 * index.val) := by
    rw [entryAt, BitVec.add_comm, BitVec.add_sub_cancel]
  have value : (BitVec.ofNat 64 (8 * index.val)).toNat = 8 * index.val := by
    rw [BitVec.toNat_ofNat]
    omega
  have positive : (BitVec.ofNat 64 (8 * index.val)).msb = false := by
    rw [BitVec.msb_eq_false_iff_two_mul_lt, value]
    omega
  apply BitVec.eq_of_toNat_eq
  rw [entryDifference, offset, BitVec.sshiftRight_eq_of_msb_false positive,
    BitVec.toNat_setWidth, BitVec.toNat_ushiftRight, value,
    Nat.shiftRight_eq_div_pow]
  show 8 * index.val / 2 ^ 3 % 2 ^ 9 = index.val
  omega

/-- The entries of a walk along the indices of an address. -/
structure Visited (memory : Words) (cr3 : U64) (addr : Vaddr)
    (pml4 pdpt pd pt : U64) : Prop where
  atPML4 : pml4 = entryAt (cr3PML4ptr cr3) addr.PML4
  atPdpt : pdpt = entryAt (pml4ePDPTptr (memory pml4)) addr.directoryPtr
  pdptType : pdpteType (memory pdpt) = .PDPT_PD
  atPd : pd = entryAt (pdptePdPd (memory pdpt)) addr.directory
  pdType : pdeType (memory pd) = .PD_PT
  atPt : pt = entryAt (pdePtPt (memory pd)) addr.table

/-- The members of the view, assigned one after the other. -/
theorem get_assigned
    (before : U64) (l4 : BitVec PML4Field.width)
    (l3 : BitVec directoryPtrField.width) (l2 : BitVec directoryField.width)
    (l1 : BitVec tableField.width) (l0 : BitVec offsetField.width)
    {addr : U64} (same4 : l4 = PML4Field.get addr)
    (same3 : l3 = directoryPtrField.get addr)
    (same2 : l2 = directoryField.get addr) (same1 : l1 = tableField.get addr)
    (same0 : l0 = offsetField.get addr) :
    ∀ field ∈ viewFields,
      field.get
          (offsetField.set
            (tableField.set
              (directoryField.set
                (directoryPtrField.set (PML4Field.set before l4) l3) l2) l1)
            l0) =
        field.get addr := by
  subst same4 same3 same2 same1 same0
  simp only [viewFields, lowFields, List.forall_mem_cons]
  refine ⟨?_, ?_, ?_, ?_, ?_, nofun⟩
  · rw [Field.get_set_of_apart _ offsetField (by decide),
      Field.get_set_of_apart _ tableField (by decide),
      Field.get_set_of_apart _ directoryField (by decide),
      Field.get_set_of_apart _ directoryPtrField (by decide), Field.get_set]
  · rw [Field.get_set]
  · rw [Field.get_set_of_apart _ offsetField (by decide), Field.get_set]
  · rw [Field.get_set_of_apart _ offsetField (by decide),
      Field.get_set_of_apart _ tableField (by decide), Field.get_set]
  · rw [Field.get_set_of_apart _ offsetField (by decide),
      Field.get_set_of_apart _ tableField (by decide),
      Field.get_set_of_apart _ directoryField (by decide), Field.get_set]

/-- What the constructor makes of these entries is the address. -/
theorem ofEntries_visited
    {memory : Words} {cr3 pml4 pdpt pd pt : U64} {addr : Vaddr}
    (visited : Visited memory cr3 addr pml4 pdpt pd pt) (before : U64) :
    ofEntries memory cr3 pml4 pdpt pd pt
        ((offsetField.get addr.bits).setWidth 64) before =
      some (cannoncialize addr) := by
  have l4 :
      (entryDifference pml4 (cr3PML4ptr cr3)).setWidth 9 =
        PML4Field.get addr.bits := by
    rw [visited.atPML4, entryDifference_entryAt]
    rfl
  have l3 :
      (entryDifference pdpt (pml4ePDPTptr (memory pml4))).setWidth 9 =
        directoryPtrField.get addr.bits := by
    rw [visited.atPdpt, entryDifference_entryAt]
    rfl
  have l2 :
      (entryDifference pd (pdptePdPd (memory pdpt))).setWidth 9 =
        directoryField.get addr.bits := by
    rw [visited.atPd, entryDifference_entryAt]
    rfl
  have l1 :
      (entryDifference pt (pdePtPt (memory pd))).setWidth 9 =
        tableField.get addr.bits := by
    rw [visited.atPt, entryDifference_entryAt]
    rfl
  have l0 :
      ((offsetField.get addr.bits).setWidth 64).setWidth 12 =
        offsetField.get addr.bits := by
    apply BitVec.eq_of_toNat_eq
    rw [BitVec.toNat_setWidth, BitVec.toNat_setWidth]
    have bound : (offsetField.get addr.bits).toNat < 2 ^ 12 :=
      (offsetField.get addr.bits).isLt
    show _ = (offsetField.get addr.bits).toNat
    omega
  rw [ofEntries, if_pos visited.pdptType, if_pos visited.pdType]
  exact congrArg some
    (cannoncialize_eq_of_view _ _ (get_assigned before _ _ _ _ _ l4 l3 l2 l1 l0))

/-! ## Consistency -/

/-- The splits of an address and the ways to put one together agree. -/
structure Consistent : Prop where
  extended : ∀ u : U64, toU64 (ofU64 u) = signExtension u
  canonical : ∀ u : U64, Canonical u → toU64 (ofU64 u) = u
  views :
    ∀ addr : Vaddr,
      (directory2mField.get addr.bits).toFin = addr.directory ∧
        (directoryPtr2mField.get addr.bits).toFin = addr.directoryPtr ∧
          (directoryPtr1gField.get addr.bits).toFin = addr.directoryPtr ∧
            (PML42mField.get addr.bits).toFin = addr.PML4 ∧
              (PML41gField.get addr.bits).toFin = addr.PML4
  reindexed :
    ∀ (addr : Vaddr) (index : BitVec 32),
      0 ≤ index.toInt ∧ index.toInt < 512 →
        ∃ after,
          setPML4 addr index = some after ∧ after.PML4.val = index.toInt ∧
            (∀ field ∈ lowFields,
              field.get after.bits = field.get addr.bits) ∧
              toU64 after = after.bits ∧ Canonical (toU64 after)
  rebuilt :
    ∀ (memory : Words) (cr3 pml4 pdpt pd pt before u : U64),
      Canonical u → Visited memory cr3 (ofU64 u) pml4 pdpt pd pt →
        ∃ addr,
          ofEntries memory cr3 pml4 pdpt pd pt
              ((offsetField.get (ofU64 u).bits).setWidth 64) before =
            some addr ∧ addr = ofU64 u ∧ toU64 addr = u

/-- Every split of a 64-bit address agrees with the others and with the ways to
put it together again. -/
theorem vaddr_consistent : Consistent where
  extended u := toU64_cannoncialize ⟨u⟩
  canonical u canonical :=
    (toU64_cannoncialize ⟨u⟩).trans (signExtension_of_canonical canonical)
  views := views_agree
  reindexed addr _ inside := setPML4_spec addr inside
  rebuilt memory cr3 pml4 pdpt pd pt before u canonical visited := by
    have same : cannoncialize (ofU64 u) = ofU64 u :=
      cannoncialize_eq_of_view _ _
        (fun field member => get_ofU64 field (by
          revert field
          decide) u)
    refine ⟨_, ofEntries_visited visited before, same, ?_⟩
    rw [same]
    exact (toU64_cannoncialize ⟨u⟩).trans
      (signExtension_of_canonical canonical)

end NopOS.Mmu.VirtualAddress
