import NopOS.Mmu.Mapper

/-!
# The invariant of the page tables

In every reachable state the tables form a tree, each table is an aligned
page either of the kernel image or handed out by the allocator, and each
entry has one of four shapes.  The boot directory keeps 2 MiB pages in every
slot but possibly the first.

The last part of the module turns the radix-tree results into statements
about walks: under the invariant a walk is decided by the slot at which it
leaves the tables.
-/

namespace NopOS.Mmu.TableInvariant

open NopOS.Lib.RadixTree
open NopOS.Mmu.PageTableEntry
open NopOS.Mmu.AddressTranslation
open NopOS.Mmu.PhysicalMachine
open NopOS.Mmu.Mapper

/-- The slots of physical memory, read as page-table entries. -/
abbrev nodes (machine : Machine) : Store Nat (Fin 512) Bool U64 :=
  pageNode machine.memory

/-- The table reached from the PML4. -/
abbrev tableOf (machine : Machine) (path : List (Fin 512)) : Option Nat :=
  tableAt (nodes machine) machine.root path

/-- Shape of the entry in slot `index` of the table at `path`. -/
inductive EntryShape (path : List (Fin 512)) (index : Fin 512)
    (entry : U64) : Prop where
  | empty (zero : entry = 0)
  | page
      (last : path.length = 3)
      (present : entry.getLsbD 0 = true)
      (writable : entry.getLsbD 1 = true)
  | table
      (above : path.length < 3) (next : Nat)
      (names : NamesTable entry next)
  | large (directory : path = [0, 0]) (ident : entry = identPde index)

/-- Where a table page may lie. -/
structure Placed (image : KernelImage) (machine : Machine) (table : Nat) :
    Prop where
  aligned : 4096 ∣ table
  above : 0x200000 ≤ table
  below : table < 0x1800000
  apart : table + 4096 ≤ image.edata ∨ machine.allocationAddr ≤ table

/-- The invariant. -/
structure PageTables (image : KernelImage) (machine : Machine) : Prop where
  root_eq : machine.root = image.identPtL4
  tree : IsTree (nodes machine) machine.root
  placed :
    ∀ {path table},
      tableOf machine path = some table → Placed image machine table
  shape :
    ∀ {path table} (index : Fin 512),
      tableOf machine path = some table →
        EntryShape path index (machine.memory (slotAddress table index))
  directory : tableOf machine [0, 0] = some image.identPtL2
  largePages :
    ∀ index : Fin 512, index ≠ 0 →
      machine.memory (slotAddress image.identPtL2 index) = identPde index
  firstPage :
    machine.memory (slotAddress image.identPtL2 0) = identPde 0 ∨
      ∃ table, NamesTable (machine.memory (slotAddress image.identPtL2 0)) table
  allocator_aligned : (4096 : Int) ∣ machine.allocationAddr
  allocator_le : machine.allocationAddr ≤ 1024 * 1024 * 10

/-! ## Meaning of the shapes -/

/-- A boot entry is its page's address and the flags `0x1e7`. -/
theorem identPde_getLsbD
    (index : Fin 512) (bit : Nat) :
    (identPde index).getLsbD bit =
      (decide (bit < 64) && (index.val * 2 ^ 21 + 0x1e7).testBit bit) := by
  simp [identPde, BitVec.getLsbD_ofNat]

theorem identPde_present (index : Fin 512) :
    (identPde index).getLsbD 0 = true := by
  simp only [identPde_getLsbD, Nat.testBit_eq_decide_div_mod_eq]
  simp
  omega

theorem identPde_writable (index : Fin 512) :
    (identPde index).getLsbD 1 = true := by
  simp only [identPde_getLsbD, Nat.testBit_eq_decide_div_mod_eq]
  simp
  omega

theorem identPde_large (index : Fin 512) :
    (identPde index).getLsbD 7 = true := by
  simp only [identPde_getLsbD, Nat.testBit_eq_decide_div_mod_eq]
  simp
  omega

theorem identPde_toNat (index : Fin 512) :
    (identPde index).toNat = index.val * 2 ^ 21 + 0x1e7 := by
  have bound := index.isLt
  simp only [identPde, BitVec.toNat_ofNat]
  omega

theorem identPde_ne_zero (index : Fin 512) : identPde index ≠ 0 := by
  intro zero
  have present := identPde_present index
  rw [zero] at present
  simp at present

/-- A boot directory entry maps a 2 MiB page. -/
theorem pageNode_of_identPde
    {memory : Memory} {table : Nat} {index : Fin 512}
    (ident : memory (slotAddress table index) = identPde index) :
    pageNode memory 2 table index = .leaf (identPde index) := by
  have reserved : ReservedClear 21 (identPde index) := by
    simp only [ReservedClear, identPde_toNat]
    omega
  have clear : 0 < 2 ∧ ReservedClear (39 - 9 * 2) (identPde index) :=
    ⟨by decide, reserved⟩
  simp only [pageNode, ident, identPde_present, identPde_large,
    Bool.true_eq_false, if_false, if_true, if_pos clear]
  rfl

/-- The table named by an entry is reached. -/
theorem tableOf_child
    {machine : Machine}
    {path : List (Fin 512)} {table : Nat} {index : Fin 512} {next : Nat}
    (reached : tableOf machine path = some table)
    (above : path.length < 3)
    (names : NamesTable (machine.memory (slotAddress table index)) next) :
    tableOf machine (path ++ [index]) = some next :=
  (tableAt_snoc_iff _ _ _ _ _).2
    ⟨table, true, reached, names.pageNode above⟩

namespace PageTables

variable {image : KernelImage} {machine : Machine}

/-- Every table entry is writable. -/
theorem child_label
    (tables : PageTables image machine)
    {path : List (Fin 512)} {table : Nat} {index : Fin 512}
    {next : Nat} {label : Bool}
    (reached : tableOf machine path = some table)
    (child : nodes machine path.length table index = .child next label) :
    label = true := by
  cases tables.shape index reached with
  | empty zero =>
      rw [nodes, pageNode_of_zero zero] at child
      simp at child
  | page last present writable =>
      exact
        (pageNode_last_ne_child machine.memory (by omega) table index
          next label child).elim
  | table above named names =>
      rw [nodes, names.pageNode above] at child
      simp only [Node.child.injEq] at child
      exact child.2.symm
  | large directory ident =>
      subst directory
      rw [show ([0, 0] : List (Fin 512)).length = 2 from rfl, nodes,
        pageNode_of_identPde ident] at child
      simp at child

/-- Every table on the way to a page is writable. -/
theorem labels_all
    (tables : PageTables image machine) (path : List (Fin 512)) :
    (labelsFrom (nodes machine) 0 machine.root path).all id = true := by
  rw [List.all_eq_true]
  intro label member
  exact
    forall_labelsFrom (nodes machine) machine.root (fun label => label = true)
      (fun reached child => tables.child_label reached child)
      path label member

/-! ## Walks -/

/-- A walk which leaves the tables at a page entry. -/
theorem walk_of_leaf
    (tables : PageTables image machine)
    {path rest : List (Fin 512)} {table : Nat} {index : Fin 512}
    {entry address : U64}
    (canonical : Canonical address)
    (reached : tableOf machine path = some table)
    (leaf : nodes machine path.length table index = .leaf entry)
    (key : walkKey address = path ++ index :: rest) :
    machine.walk address =
      some
        { phys :=
            frameBase (12 + 9 * rest.length) entry +
              address.toNat % 2 ^ (12 + 9 * rest.length)
          writable := entry.getLsbD 1 } := by
  have continues :=
    lookupFrom_append (nodes machine) 0 machine.root table path
      (index :: rest) reached
  simp only [Nat.zero_add, lookupFrom, leaf, Option.map_some,
    Found.below] at continues
  rw [Machine.walk, AddressTranslation.walk, if_pos canonical, key, lookup,
    continues]
  simp [translationOf, tables.labels_all path]

/-- A walk which meets an absent entry. -/
theorem walk_of_absent
    {path rest : List (Fin 512)} {table : Nat} {index : Fin 512}
    {address : U64}
    (reached : tableOf machine path = some table)
    (absent : nodes machine path.length table index = .absent)
    (key : walkKey address = path ++ index :: rest) :
    machine.walk address = none := by
  have continues :=
    lookupFrom_append (nodes machine) 0 machine.root table path
      (index :: rest) reached
  simp only [Nat.zero_add, lookupFrom, absent, Option.map_none] at continues
  rw [Machine.walk, AddressTranslation.walk]
  split
  · rw [key, lookup, continues]
    rfl
  · rfl

/-- Walks depend on the lookups only. -/
theorem walk_congr
    {before after : Machine} {address : U64}
    (sameRoot : after.root = before.root)
    (sameLookup :
      lookup (nodes after) after.root (walkKey address) =
        lookup (nodes before) before.root (walkKey address)) :
    after.walk address = before.walk address := by
  rw [sameRoot] at sameLookup
  rw [Machine.walk, Machine.walk, AddressTranslation.walk,
    AddressTranslation.walk, sameRoot, sameLookup]

/-- No entry names the null page. -/
theorem next_ne_zero
    (tables : PageTables image machine)
    {path : List (Fin 512)} {table : Nat} {index : Fin 512} {next : Nat}
    (reached : tableOf machine path = some table)
    (above : path.length < 3)
    (names : NamesTable (machine.memory (slotAddress table index)) next) :
    next ≠ 0 := by
  have placed := tables.placed (tableOf_child reached above names)
  have lower := placed.above
  omega

end PageTables

end NopOS.Mmu.TableInvariant
