import NopOS.Lib.RadixTree
import NopOS.Mmu.PageTableEntry

/-!
# Address translation of the processor

The four-level walk of x86-64 as the hardware performs it, with bit positions
of the architecture and not of `pagetable.hh`.  The page tables are a radix
tree in physical memory: the entry read at a slot is absent, maps a page, or
names the table of the next level.

A non-canonical address has no translation.  A page-size bit in a PML4 entry
and reserved address bits of a large-page entry fault like an absent entry.
-/

namespace NopOS.Mmu.AddressTranslation

open NopOS.Lib.RadixTree
open NopOS.Mmu.PageTableEntry

/-- Physical memory: the 64-bit word at each word-aligned address. -/
abbrev Memory := Nat → U64

/-- Address of an entry of a table. -/
def slotAddress (table : Nat) (index : Fin 512) : Nat :=
  table + 8 * index.val

/-- The frame address in bits 51 to `span` of an entry. -/
def frameBase (span : Nat) (entry : U64) : Nat :=
  entry.toNat % 2 ^ 52 / 2 ^ span * 2 ^ span

/-- Bits `span - 1` to 13 of a large-page entry are reserved. -/
def ReservedClear (span : Nat) (entry : U64) : Prop :=
  entry.toNat / 2 ^ 13 % 2 ^ (span - 13) = 0

instance (span : Nat) (entry : U64) : Decidable (ReservedClear span entry) :=
  inferInstanceAs (Decidable (_ = _))

/--
Meaning of the entry in a slot.  Depth 0 is the PML4 and depth 3 is a page
table; the label of a child is its `R/W` bit.
-/
def pageNode (memory : Memory) (depth table : Nat) (index : Fin 512) :
    Node Nat Bool U64 :=
  let entry := memory (slotAddress table index)
  if entry.getLsbD 0 = false then .absent
  else if 3 ≤ depth then .leaf entry
  else if entry.getLsbD 7 = true then
    if 0 < depth ∧ ReservedClear (39 - 9 * depth) entry then .leaf entry
    else .absent
  else .child (frameBase 12 entry) (entry.getLsbD 1)

/-- The index used at a level; level 0 indexes a page table. -/
def tableIndex (level : Nat) (address : U64) : Fin 512 :=
  ⟨address.toNat / 2 ^ (12 + 9 * level) % 512, Nat.mod_lt _ (by decide)⟩

/-- The four indices of an address, from the PML4 down. -/
def walkKey (address : U64) : List (Fin 512) :=
  [tableIndex 3 address, tableIndex 2 address,
    tableIndex 1 address, tableIndex 0 address]

/-- Result of a successful walk. -/
@[ext]
structure Translation where
  phys : Nat
  writable : Bool
deriving DecidableEq

/-- A page found above the last level is larger by nine bits a level. -/
def translationOf (address : U64) (found : Found (Fin 512) Bool U64) :
    Translation where
  phys :=
    frameBase (12 + 9 * found.rest.length) found.value +
      address.toNat % 2 ^ (12 + 9 * found.rest.length)
  writable := found.labels.all id && found.value.getLsbD 1

/-- The four-level walk from the table at physical address `root`. -/
def walk (memory : Memory) (root : Nat) (address : U64) :
    Option Translation :=
  if Canonical address then
    (lookup (pageNode memory) root (walkKey address)).map
      (translationOf address)
  else none

/-- Two addresses in one 4 KiB page. -/
def SamePage (first second : U64) : Prop :=
  first.toNat / 4096 = second.toNat / 4096

instance (first second : U64) : Decidable (SamePage first second) :=
  inferInstanceAs (Decidable (_ = _))

/-! ## Keys -/

/-- Canonical addresses with equal indices lie in one page. -/
theorem walkKey_eq_iff
    {first second : U64}
    (firstCanonical : Canonical first) (secondCanonical : Canonical second) :
    walkKey first = walkKey second ↔ SamePage first second := by
  simp only [walkKey, tableIndex, List.cons.injEq, Fin.mk.injEq, and_true,
    SamePage, Canonical] at *
  have firstBound := first.isLt
  have secondBound := second.isLt
  omega

/-- The indices of the constructed `vaddr` are those of the walk. -/
theorem walkKey_eq_vaddr (address : U64) :
    walkKey address =
      [(Vaddr.ofU64 address).PML4, (Vaddr.ofU64 address).directoryPtr,
        (Vaddr.ofU64 address).directory, (Vaddr.ofU64 address).table] := by
  simp only [walkKey, List.cons.injEq, and_true]
  refine ⟨?_, ?_, ?_, ?_⟩ <;> apply Fin.ext
  · exact (Vaddr.PML4_ofU64 address).symm
  · exact (Vaddr.directoryPtr_ofU64 address).symm
  · exact (Vaddr.directory_ofU64 address).symm
  · exact (Vaddr.table_ofU64 address).symm

theorem SamePage.canonical
    {address v : U64} (same : SamePage address v)
    (canonical : Canonical v) :
    Canonical address := by
  simp only [SamePage, Canonical] at *
  omega

/-- From a translated address on, the rest of its page follows. -/
theorem walk_add
    {memory : Memory} {root i : Nat} {address : U64} {found : Translation}
    (inPage : address.toNat % 4096 + i < 4096)
    (translated : walk memory root address = some found) :
    walk memory root (address + BitVec.ofNat 64 i) =
      some { found with phys := found.phys + i } := by
  have below := address.isLt
  have sum :
      (address + BitVec.ofNat 64 i).toNat = address.toNat + i := by
    rw [BitVec.toNat_add, BitVec.toNat_ofNat]
    omega
  have same : SamePage (address + BitVec.ofNat 64 i) address := by
    rw [SamePage, sum]
    omega
  have canonical : Canonical address := by
    by_contra notCanonical
    rw [walk, if_neg notCanonical] at translated
    cases translated
  have canonicalSum := same.canonical canonical
  rw [walk, if_pos canonical, Option.map_eq_some_iff] at translated
  rcases translated with ⟨entry, looked, rfl⟩
  rw [walk, if_pos canonicalSum,
    (walkKey_eq_iff canonicalSum canonical).2 same, looked, Option.map_some]
  have span :
      2 ^ (12 + 9 * entry.rest.length) =
        4096 * 2 ^ (9 * entry.rest.length) := by
    rw [Nat.pow_add]
  have offset :
      (address.toNat + i) % (4096 * 2 ^ (9 * entry.rest.length)) =
        address.toNat % (4096 * 2 ^ (9 * entry.rest.length)) + i := by
    have samePage : (address.toNat + i) / 4096 = address.toNat / 4096 := by
      omega
    have inner : (address.toNat + i) % 4096 = address.toNat % 4096 + i := by
      omega
    rw [Nat.mod_mul, Nat.mod_mul, samePage, inner]
    ring
  simp only [translationOf, span, sum, offset, Nat.add_assoc]

/-- Within a page translations differ by the offset only. -/
theorem walk_of_samePage
    {memory : Memory} {root : Nat} {page address : U64}
    {found : Translation}
    (aligned : 4096 ∣ page.toNat) (same : SamePage address page)
    (translated : walk memory root page = some found) :
    walk memory root address =
      some { found with phys := found.phys + address.toNat % 4096 } := by
  rw [SamePage] at same
  have inPage : page.toNat % 4096 + address.toNat % 4096 < 4096 := by
    omega
  have sum : page + BitVec.ofNat 64 (address.toNat % 4096) = address := by
    apply BitVec.eq_of_toNat_eq
    have below := address.isLt
    rw [BitVec.toNat_add, BitVec.toNat_ofNat]
    omega
  have added := walk_add inPage translated
  rw [sum] at added
  exact added

/-! ## Slots -/

/-- Page-aligned tables do not overlap: a slot determines its table. -/
theorem slotAddress_inj
    {first second : Nat} {firstIndex secondIndex : Fin 512}
    (firstAligned : 4096 ∣ first) (secondAligned : 4096 ∣ second) :
    slotAddress first firstIndex = slotAddress second secondIndex ↔
      first = second ∧ firstIndex = secondIndex := by
  have firstBound := firstIndex.isLt
  have secondBound := secondIndex.isLt
  simp only [slotAddress, Fin.ext_iff]
  omega

/-- A slot of an aligned table lies in an aligned page only if they coincide. -/
theorem slotAddress_in_page_iff
    {table page : Nat} {index : Fin 512}
    (tableAligned : 4096 ∣ table) (pageAligned : 4096 ∣ page) :
    (page ≤ slotAddress table index ∧
        slotAddress table index < page + 4096) ↔
      table = page := by
  have bound := index.isLt
  simp only [slotAddress]
  omega

/-- Equal entries have equal meaning. -/
theorem pageNode_congr
    {first second : Memory} {depth table : Nat} {index : Fin 512}
    (same :
      first (slotAddress table index) = second (slotAddress table index)) :
    pageNode first depth table index = pageNode second depth table index := by
  simp only [pageNode, same]

/-! ## Kinds of entries -/

theorem pageNode_of_not_present
    {memory : Memory} {depth table : Nat} {index : Fin 512}
    (notPresent : (memory (slotAddress table index)).getLsbD 0 = false) :
    pageNode memory depth table index = .absent := by
  simp only [pageNode, notPresent, if_true]

theorem pageNode_of_zero
    {memory : Memory} {depth table : Nat} {index : Fin 512}
    (zero : memory (slotAddress table index) = 0) :
    pageNode memory depth table index = .absent :=
  pageNode_of_not_present (by simp [zero])

/-- An entry of a page table maps a page as soon as it is present. -/
theorem pageNode_of_present_last
    {memory : Memory} {table : Nat} {index : Fin 512}
    (present : (memory (slotAddress table index)).getLsbD 0 = true) :
    pageNode memory 3 table index =
      .leaf (memory (slotAddress table index)) := by
  simp only [pageNode, present, Bool.true_eq_false, if_false, le_refl,
    if_true]

/-- A slot of a page table never names a table. -/
theorem pageNode_last_ne_child
    (memory : Memory) {depth : Nat} (last : 3 ≤ depth)
    (table : Nat) (index : Fin 512) (next : Nat) (label : Bool) :
    pageNode memory depth table index ≠ .child next label := by
  simp only [pageNode, if_pos last]
  split <;> simp

/-- An entry above the last level which names a table. -/
structure NamesTable (entry : U64) (next : Nat) : Prop where
  present : entry.getLsbD 0 = true
  writable : entry.getLsbD 1 = true
  notLarge : entry.getLsbD 7 = false
  frame : frameBase 12 entry = next

/-- An entry that names a table leads to it. -/
theorem NamesTable.pageNode
    {memory : Memory} {depth table next : Nat} {index : Fin 512}
    (names : NamesTable (memory (slotAddress table index)) next)
    (above : depth < 3) :
    pageNode memory depth table index = .child next true := by
  have notLast : ¬ 3 ≤ depth := by omega
  simp only [AddressTranslation.pageNode, names.present, names.notLarge,
    names.writable, names.frame, notLast, Bool.true_eq_false,
    Bool.false_eq_true, if_false]

end NopOS.Mmu.AddressTranslation
