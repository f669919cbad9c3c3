import NopOS.Mmu.MapRefinement

/-!
# `is_mappped` against the walk

`is_mappped` follows the walk except that it takes the type of the whole page
directory from its first entry.  The two agree as long as the boot directory
is uniform; once its first page has been split, a query about another of its
2 MiB pages fails the assertion in `pde::to_pt`.
-/

namespace NopOS.Mmu.MappedCheck

open NopOS.Lib.BitField
open NopOS.Lib.RadixTree
open NopOS.Lib.StatefulProgram
open NopOS.Mmu.PageTableEntry
open NopOS.Mmu.AddressTranslation
open NopOS.Mmu.PhysicalMachine
open NopOS.Mmu.Mapper
open NopOS.Mmu.TableInvariant
open NopOS.Mmu.MapperSteps
open NopOS.Mmu.MapperSpecs
open NopOS.Mmu.MapRefinement

/-! ## Stages of `is_mappped` -/

/-- From the page directory on. -/
def isMapppedInDirectory (addr : Vaddr) (pd : Nat) : Exec Bool := do
  if pdeType (← load (slotAddress pd 0)) = .PD_2M then
    return true
  let pde := slotAddress pd addr.directory
  pdeToPt pde
  if pdePt.present.get (← load pde) = 0 then
    return false
  let pte_ := slotAddress (pdePtPt (← load pde)).toNat addr.table
  return pte.present.get (← load pte_) ≠ 0

/-- From the PML4 at `root` on. -/
def isMapppedFromRoot (addr : Vaddr) (root : Nat) : Exec Bool := do
  let pml4 := slotAddress root addr.PML4
  if pml4e.present.get (← load pml4) = 0 then
    return false
  let pdpte :=
    slotAddress (pml4ePDPTptr (← load pml4)).toNat addr.directoryPtr
  pdpteToPd pdpte
  if pdptePd.present.get (← load pdpte) = 0 then
    return false
  isMapppedInDirectory addr (pdptePdPd (← load pdpte)).toNat

theorem isMappped_run (addr : Vaddr) (machine : Machine) :
    isMappped addr machine =
      isMapppedFromRoot addr machine.root machine := by
  rw [isMappped, bind_of_ok (get_run machine), isMapppedFromRoot,
    Machine.root]
  rfl

/-! ## Presence -/

theorem present_eq_zero_iff (entry : U64) :
    FrameEntry.standard.present.get entry = 0 ↔
      entry.getLsbD 0 = false := by
  rw [← Bool.not_eq_true,
    ← Field.get_flag_eq_one_iff 0 (by decide) entry]
  change FrameEntry.standard.present.get entry = 0#1 ↔
    ¬ FrameEntry.standard.present.get entry = 1#1
  generalize FrameEntry.standard.present.get entry = bit
  revert bit
  change ∀ bit : BitVec 1, bit = 0#1 ↔ ¬ bit = 1#1
  decide

theorem not_present_of_zero {entry : U64} (zero : entry = 0) :
    FrameEntry.standard.present.get entry = 0 := by
  rw [zero]
  rfl

theorem present_of_names
    {entry : U64} {next : Nat} (names : NamesTable entry next) :
    FrameEntry.standard.present.get entry ≠ 0 := by
  rw [Ne, present_eq_zero_iff, names.present]
  simp

section Check

variable {image : KernelImage} {machine : Machine} {v : U64} {pd : Nat}

/-- A directory which starts with a 2 MiB page has nothing else. -/
theorem isMapppedInDirectory_of_uniform
    (tables : PageTables image machine) (canonical : Canonical v)
    (reached :
      tableOf machine
          [(Vaddr.ofU64 v).PML4, (Vaddr.ofU64 v).directoryPtr] =
        some pd)
    (large : (machine.memory (slotAddress pd 0)).getLsbD 7 = true) :
    isMapppedInDirectory (Vaddr.ofU64 v) pd machine =
      .ok (machine.walk v).isSome machine := by
  rcases boot_directory_of_large tables reached (by simp) large with
    ⟨directory, rfl, first⟩
  have ident :
      machine.memory
          (slotAddress image.identPtL2 (Vaddr.ofU64 v).directory) =
        identPde (Vaddr.ofU64 v).directory := by
    by_cases same : (Vaddr.ofU64 v).directory = 0
    · rw [same, first]
    · exact tables.largePages _ same
  have found :=
    tables.walk_of_leaf canonical reached (pageNode_of_identPde ident)
      (walkKey_eq_vaddr v)
  rw [isMapppedInDirectory, bind_of_ok (load_run _ _),
    if_pos ((pdeType_eq_PD_2M_iff _).2 large), found]
  rfl

/-- The last level: an entry of a page table is used as it is. -/
theorem lastEntry_spec
    (tables : PageTables image machine) (canonical : Canonical v)
    {table : Nat}
    (reached :
      tableOf machine
          [(Vaddr.ofU64 v).PML4, (Vaddr.ofU64 v).directoryPtr,
            (Vaddr.ofU64 v).directory] =
        some table) :
    (machine.walk v).isSome =
      decide
        (FrameEntry.standard.present.get
          (machine.memory
            (slotAddress table (Vaddr.ofU64 v).table)) ≠ 0) := by
  rw [Bool.eq_iff_iff, decide_eq_true_iff, Ne, present_eq_zero_iff,
    Bool.not_eq_false]
  cases tables.shape (Vaddr.ofU64 v).table reached with
  | empty zero =>
      have absent :=
        PageTables.walk_of_absent reached (pageNode_of_zero zero)
          (walkKey_eq_vaddr v)
      simp [absent, zero]
  | page last present writable =>
      have found :=
        tables.walk_of_leaf canonical reached
          (pageNode_of_present_last present) (walkKey_eq_vaddr v)
      simp [found, present, -BitVec.getLsbD_eq_getElem]
  | table above => simp at above
  | large directory => simp at directory

/-- Below a directory with a table at each entry that is asked about, the answer
is the walk's. -/
theorem isMapppedInDirectory_of_pointer
    (tables : PageTables image machine) (canonical : Canonical v)
    (reached :
      tableOf machine
          [(Vaddr.ofU64 v).PML4, (Vaddr.ofU64 v).directoryPtr] =
        some pd)
    (firstPointer :
      (machine.memory (slotAddress pd 0)).getLsbD 7 = false)
    (notLarge : ¬ InLargePages v) :
    isMapppedInDirectory (Vaddr.ofU64 v) pd machine =
      .ok (machine.walk v).isSome machine := by
  have pointer :
      (machine.memory
        (slotAddress pd (Vaddr.ofU64 v).directory)).getLsbD 7 = false := by
    rw [← Bool.not_eq_true, large_iff tables reached firstPointer canonical]
    exact notLarge
  have notUniform :
      pdeType (machine.memory (slotAddress pd 0)) ≠ .PD_2M := by
    rw [Ne, pdeType_eq_PD_2M_iff, firstPointer]
    simp
  rw [isMapppedInDirectory, bind_of_ok (load_run _ _), if_neg notUniform,
    bind_of_ok (pdeToPt_run_of_pointer pointer), bind_of_ok (load_run _ _),
    pdePt_eq_standard, pte_eq_standard]
  rcases absent_or_names tables reached (by simp) pointer with
    zero | ⟨table, names⟩
  · have absent :=
      PageTables.walk_of_absent reached (pageNode_of_zero zero)
        (walkKey_eq_vaddr v)
    rw [if_pos (not_present_of_zero zero), absent]
    rfl
  · have pt :
        (pdePtPt
          (machine.memory
            (slotAddress pd (Vaddr.ofU64 v).directory))).toNat = table :=
      toNat_pointer_of_names names
    have tableReached := tableOf_child reached (by simp) names
    rw [if_neg (present_of_names names), bind_of_ok (load_run _ _), pt,
      bind_of_ok (load_run _ _),
      lastEntry_spec tables canonical tableReached]
    rfl

/-- The assertion fails on a large page of a split directory. -/
theorem isMapppedInDirectory_fails
    (tables : PageTables image machine) (canonical : Canonical v)
    (reached :
      tableOf machine
          [(Vaddr.ofU64 v).PML4, (Vaddr.ofU64 v).directoryPtr] =
        some pd)
    (firstPointer :
      (machine.memory (slotAddress pd 0)).getLsbD 7 = false)
    (large : InLargePages v) :
    isMapppedInDirectory (Vaddr.ofU64 v) pd machine =
      .error (.assertFailed "type() == pd_type::PD_PT") machine := by
  have ownLarge := (large_iff tables reached firstPointer canonical).2 large
  have notUniform :
      pdeType (machine.memory (slotAddress pd 0)) ≠ .PD_2M := by
    rw [Ne, pdeType_eq_PD_2M_iff, firstPointer]
    simp
  rw [isMapppedInDirectory, bind_of_ok (load_run _ _), if_neg notUniform]
  exact bind_of_error (pdeToPt_run_of_large ownLarge)

/-- Below an absent entry there is no table. -/
theorem tableOf_below_zero
    {path : List (Fin 512)} {table : Nat} {index : Fin 512}
    (reached : tableOf machine path = some table)
    (zero : machine.memory (slotAddress table index) = 0)
    (rest : List (Fin 512)) :
    tableOf machine (path ++ index :: rest) = none := by
  have absent : nodes machine (0 + path.length) table index = .absent :=
    pageNode_of_zero zero
  have follows : tableFrom (nodes machine) 0 machine.root path = some table :=
    reached
  rw [tableOf, tableAt, tableFrom_append, follows, Option.bind_some,
    tableFrom, absent]

/-- Above the directory the check follows the walk. -/
theorem isMappped_reduces
    (tables : PageTables image machine) (v : U64) :
    (tableOf machine
          [(Vaddr.ofU64 v).PML4, (Vaddr.ofU64 v).directoryPtr] = none ∧
        isMappped (Vaddr.ofU64 v) machine =
          .ok (machine.walk v).isSome machine) ∨
      ∃ pd,
        tableOf machine
            [(Vaddr.ofU64 v).PML4, (Vaddr.ofU64 v).directoryPtr] =
          some pd ∧
        isMappped (Vaddr.ofU64 v) machine =
          isMapppedInDirectory (Vaddr.ofU64 v) pd machine := by
  have key := walkKey_eq_vaddr v
  have rootReached : tableOf machine [] = some machine.root := rfl
  have rootPointer :
      (machine.memory
        (slotAddress machine.root (Vaddr.ofU64 v).PML4)).getLsbD 7 =
          false :=
    notLarge_of_ne_directory tables rootReached (by simp) (by simp)
  rw [isMappped_run, isMapppedFromRoot, bind_of_ok (load_run _ _),
    pml4e_eq_standard]
  rcases absent_or_names tables rootReached (by simp) rootPointer with
    zero | ⟨table, names⟩
  · have absent :=
      PageTables.walk_of_absent rootReached (pageNode_of_zero zero) key
    rw [if_pos (not_present_of_zero zero), absent]
    exact Or.inl ⟨tableOf_below_zero rootReached zero _, rfl⟩
  have tableReached := tableOf_child rootReached (by simp) names
  have pointer :
      (machine.memory
        (slotAddress table (Vaddr.ofU64 v).directoryPtr)).getLsbD 7 =
          false :=
    notLarge_of_ne_directory tables tableReached (by simp) (by simp)
  have tableEq :
      (pml4ePDPTptr
        (machine.memory
          (slotAddress machine.root (Vaddr.ofU64 v).PML4))).toNat = table :=
    toNat_pointer_of_names names
  rw [if_neg (present_of_names names), bind_of_ok (load_run _ _), tableEq,
    bind_of_ok (pdpteToPd_run_of_pointer pointer),
    bind_of_ok (load_run _ _), pdptePd_eq_standard]
  rcases absent_or_names tables tableReached (by simp) pointer with
    zero | ⟨pd, pdNames⟩
  · have absent :=
      PageTables.walk_of_absent tableReached (pageNode_of_zero zero) key
    rw [if_pos (not_present_of_zero zero), absent]
    exact Or.inl ⟨tableOf_below_zero tableReached zero _, rfl⟩
  · have pdEq :
        (pdptePdPd
          (machine.memory
            (slotAddress table (Vaddr.ofU64 v).directoryPtr))).toNat = pd :=
      toNat_pointer_of_names pdNames
    rw [if_neg (present_of_names pdNames), bind_of_ok (load_run _ _), pdEq]
    exact Or.inr ⟨pd, tableOf_child tableReached (by simp) pdNames, rfl⟩

/--
`is_mappped` returns the answer of the walk, or fails its assertion: the
latter exactly on the remaining large pages of a split boot directory.
-/
theorem isMappped_spec
    (tables : PageTables image machine) (canonical : Canonical v) :
    isMappped (Vaddr.ofU64 v) machine =
      if InLargePages v ∧ FirstSplit image machine then
        .error (.assertFailed "type() == pd_type::PD_PT") machine
      else .ok (machine.walk v).isSome machine := by
  have inDirectory : InLargePages v → v.toNat < 2 ^ 30 := fun large => large.2
  rcases isMappped_reduces tables v with
    ⟨noDirectory, runs⟩ | ⟨pd, reached, runs⟩
  · have notLarge : ¬ InLargePages v := by
      intro large
      rw [(inDirectory_iff canonical).2 (inDirectory large),
        tables.directory] at noDirectory
      simp at noDirectory
    rw [if_neg (fun both => notLarge both.1), runs]
  rw [runs]
  by_cases firstLarge : (machine.memory (slotAddress pd 0)).getLsbD 7 = true
  · have notSplit : ¬ FirstSplit image machine := by
      rcases boot_directory_of_large tables reached (by simp) firstLarge with
        ⟨-, rfl, -⟩
      rw [FirstSplit, firstLarge]
      simp
    rw [if_neg (fun both => notSplit both.2),
      isMapppedInDirectory_of_uniform tables canonical reached firstLarge]
  rw [Bool.not_eq_true] at firstLarge
  by_cases large : InLargePages v
  · have samePd :=
      (directory_iff tables reached canonical).2 (inDirectory large)
    subst samePd
    rw [if_pos ⟨large, firstLarge⟩,
      isMapppedInDirectory_fails tables canonical reached firstLarge large]
  · rw [if_neg (fun both => large both.1),
      isMapppedInDirectory_of_pointer tables canonical reached firstLarge
        large]

end Check

end NopOS.Mmu.MappedCheck
