import NopOS.Lib.LabelledRun
import NopOS.Mmu.MapperSpecs

/-!
# `map` as an update of the translation function

A call of `map` fails exactly on the 2 MiB pages of the boot directory other
than the first, and otherwise updates the translation of one page.  Which of
these pages `is_mappped` still finds depends on whether the first page has
been split, that is, on whether an earlier call mapped an address in it.
-/

namespace NopOS.Mmu.MapRefinement

open NopOS.Lib.RadixTree
open NopOS.Lib.StatefulProgram
open NopOS.Lib.LabelledRun
open NopOS.Mmu.PageTableEntry
open NopOS.Mmu.AddressTranslation
open NopOS.Mmu.PhysicalMachine
open NopOS.Mmu.Mapper
open NopOS.Mmu.TableInvariant
open NopOS.Mmu.TableUpdate
open NopOS.Mmu.MapperSteps
open NopOS.Mmu.MapperSpecs

/-! ## Stages of `map` -/

/-- From the page directory on. -/
def mapInDirectory (addr : Vaddr) (phys : U64) (pd : Nat) : Exec Unit := do
  let pde := slotAddress pd addr.directory
  pdeToPt pde
  ensureTable pdePt pde
  let pte_ := slotAddress (pdePtPt (← load pde)).toNat addr.table
  assignPte pte_ phys

/-- From the page-directory-pointer entry on. -/
def mapInPointerTable (addr : Vaddr) (phys : U64) (pdpte : Nat) :
    Exec Unit := do
  pdpteToPd pdpte
  ensureTable pdptePd pdpte
  let pd := (pdptePdPd (← load pdpte)).toNat
  breakFirst pd
  mapInDirectory addr phys pd

/-- From the PML4 at `root` on. -/
def mapFromRoot (addr : Vaddr) (phys : U64) (root : Nat) : Exec Unit := do
  let pml4 := slotAddress root addr.PML4
  ensureTable FrameEntry.standard pml4
  let pdpte :=
    slotAddress (pml4ePDPTptr (← load pml4)).toNat addr.directoryPtr
  mapInPointerTable addr phys pdpte

theorem map_run (addr : Vaddr) (phys : U64) (machine : Machine) :
    map addr phys machine = mapFromRoot addr phys machine.root machine := by
  rw [map, bind_of_ok (get_run machine), mapFromRoot, Machine.root,
    pml4e_eq_standard]
  rfl

theorem mapInDirectory_descends (addr : Vaddr) (phys : U64) (pd : Nat) :
    Descends (mapInDirectory addr phys pd) :=
  (pdeToPt_descends _).bind fun _ =>
    (ensureTable_descends _ _).bind fun _ =>
      (load_descends _).bind fun _ => assignPte_descends _ _

theorem mapInPointerTable_descends
    (addr : Vaddr) (phys : U64) (pdpte : Nat) :
    Descends (mapInPointerTable addr phys pdpte) :=
  (pdpteToPd_descends _).bind fun _ =>
    (ensureTable_descends _ _).bind fun _ =>
      (load_descends _).bind fun _ =>
        (breakFirst_descends _).bind fun _ => mapInDirectory_descends _ _ _

theorem map_descends (addr : Vaddr) (phys : U64) :
    Descends (map addr phys) := by
  intro machine
  rw [map_run]
  exact
    (ensureTable_descends _ _).bind
      (fun _ => (load_descends _).bind
        fun _ => mapInPointerTable_descends _ _ _) machine

/-- A call takes at most four pages. -/
theorem map_takes (addr : Vaddr) (phys : U64) :
    TakesAtMost (4 * 4096) (map addr phys) := by
  have inDirectory (pd : Nat) :
      TakesAtMost 4096 (mapInDirectory addr phys pd) :=
    (pdeToPt_takes _).bind fun _ =>
      (ensureTable_takes _ _).bind fun _ =>
        (load_takes _).bind fun _ => assignPte_takes _ _
  have inPointerTable (pdpte : Nat) :
      TakesAtMost (3 * 4096) (mapInPointerTable addr phys pdpte) :=
    (pdpteToPd_takes _).bind fun _ =>
      (ensureTable_takes _ _).bind fun _ =>
        (load_takes _).bind fun _ =>
          (breakFirst_takes _).bind fun _ => inDirectory _
  have fromRoot (root : Nat) :
      TakesAtMost (4 * 4096) (mapFromRoot addr phys root) :=
    (ensureTable_takes _ _).bind fun _ =>
      (load_takes _).bind fun _ => inPointerTable _
  intro machine
  rw [map_run]
  exact fromRoot machine.root machine

/-! ## Specification of the stages -/

section Stages

variable {image : KernelImage} {machine : Machine}

/-- Only entries of the boot directory have their `PS` bit set. -/
theorem notLarge_of_ne_directory
    (tables : PageTables image machine)
    {path : List (Fin 512)} {table : Nat} {index : Fin 512}
    (reached : tableOf machine path = some table)
    (above : path.length < 3) (notDirectory : path ≠ [0, 0]) :
    (machine.memory (slotAddress table index)).getLsbD 7 = false := by
  cases tables.shape index reached with
  | empty zero => simp [zero]
  | page last present writable => omega
  | table _ next names => exact names.notLarge
  | large directory ident => exact (notDirectory directory).elim

/-- A large page fails the assertion of `to_pt`. -/
theorem mapInDirectory_run_of_large
    {addr : Vaddr} {pd : Nat}
    (large :
      (machine.memory (slotAddress pd addr.directory)).getLsbD 7 = true)
    (phys : U64) :
    mapInDirectory addr phys pd machine =
      .error (.assertFailed "type() == pd_type::PD_PT") machine := by
  rw [mapInDirectory]
  exact bind_of_error (pdeToPt_run_of_large large)

theorem toNat_pointer_of_names
    {entry : U64} {next : Nat} (names : NamesTable entry next) :
    (FrameEntry.standard.pointer entry).toNat = next := by
  rw [← frameBase_eq_pointer, names.frame]

/-- The last store of the mapper makes a present and writable entry. -/
theorem assignPte_assigns
    (before : Machine) (table : Nat) (index : Fin 512) (phys : U64) :
    ∃ after,
      assignPte (slotAddress table index) phys before = .ok () after ∧
        AssignsPage before after table index
          (pageEntry (before.memory (slotAddress table index)) phys) := by
  refine
    ⟨_, assignPte_run _ _ _,
      { sameCr3 := rfl
        sameAllocator := rfl
        memory_eq := rfl
        present := ?_
        writable := ?_ }⟩
  · rw [pageEntry_getLsbD _ _ (by decide)]
    rfl
  · rw [pageEntry_getLsbD _ _ (by decide)]
    rfl

/-- Below a directory: a missing table is added, then the page is assigned. -/
theorem mapInDirectory_spec
    (tables : PageTables image machine)
    {path : List (Fin 512)} {addr : Vaddr} {pd : Nat}
    (reached : tableOf machine path = some pd)
    (above : path.length < 3)
    (notLarge :
      (machine.memory (slotAddress pd addr.directory)).getLsbD 7 = false)
    {phys : U64}
    (room :
      (image.edata : Int) ≤
        (finalState (mapInDirectory addr phys pd machine)).allocationAddr) :
    ∃ middle table after,
      mapInDirectory addr phys pd machine = .ok () after ∧
        Extends image machine middle ∧
        tableOf middle (path ++ [addr.directory]) = some table ∧
        AssignsPage middle after table addr.table
          (pageEntry
            (middle.memory (slotAddress table addr.table)) phys) ∧
        middle.memory (slotAddress image.identPtL2 0) =
          machine.memory (slotAddress image.identPtL2 0) := by
  rw [mapInDirectory, bind_of_ok (pdeToPt_run_of_pointer notLarge),
    pdePt_eq_standard] at room ⊢
  have ensureRoom :=
    room.trans
      (NeverRaises.after_first
        (fun _ =>
          (load_descends _).bind fun _ => assignPte_descends _ _)
        machine)
  rcases ensureTable_spec tables reached above notLarge ensureRoom with
    ⟨middle, table, runs, extended, names, sameFirst⟩
  have pt :
      (pdePtPt
        (middle.memory (slotAddress pd addr.directory))).toNat = table :=
    toNat_pointer_of_names names
  have child := tableOf_child (extended.kept reached) above names
  rcases assignPte_assigns middle table addr.table phys with
    ⟨after, stores, assigns⟩
  rw [bind_of_ok runs, bind_of_ok (load_run _ _), pt]
  exact ⟨middle, table, after, stores, extended, child, assigns, sameFirst⟩

/-- What the stages above the page directory achieve. -/
structure Prepared (image : KernelImage) (machine middle : Machine)
    (addr : Vaddr) (pd : Nat) : Prop where
  extended : Extends image machine middle
  reached : tableOf middle [addr.PML4, addr.directoryPtr] = some pd
  firstPointer : (middle.memory (slotAddress pd 0)).getLsbD 7 = false
  untouched :
    pd ≠ image.identPtL2 →
      middle.memory (slotAddress image.identPtL2 0) =
        machine.memory (slotAddress image.identPtL2 0)

/-- Below the pointer table: a missing directory is added and its first entry is
split. -/
theorem mapInPointerTable_spec
    (tables : PageTables image machine)
    {addr : Vaddr} {table : Nat}
    (reached : tableOf machine [addr.PML4] = some table)
    {phys : U64}
    (room :
      (image.edata : Int) ≤
        (finalState
          (mapInPointerTable addr phys
            (slotAddress table addr.directoryPtr)
            machine)).allocationAddr) :
    ∃ middle pd,
      Prepared image machine middle addr pd ∧
        mapInPointerTable addr phys (slotAddress table addr.directoryPtr)
            machine =
          mapInDirectory addr phys pd middle := by
  have pointer :
      (machine.memory (slotAddress table addr.directoryPtr)).getLsbD 7 =
        false :=
    notLarge_of_ne_directory tables reached (by simp) (by simp)
  rw [mapInPointerTable, bind_of_ok (pdpteToPd_run_of_pointer pointer),
    pdptePd_eq_standard] at room ⊢
  have ensureRoom :=
    room.trans
      (NeverRaises.after_first
        (fun _ =>
          (load_descends _).bind fun _ =>
            (breakFirst_descends _).bind fun _ =>
              mapInDirectory_descends _ _ _)
        machine)
  rcases ensureTable_spec tables reached (by simp) pointer ensureRoom with
    ⟨linked, pd, runs, extended, names, sameFirst⟩
  have pdEq :
      (pdptePdPd
        (linked.memory
          (slotAddress table addr.directoryPtr))).toNat = pd :=
    toNat_pointer_of_names names
  rw [bind_of_ok runs, bind_of_ok (load_run _ _), pdEq] at room ⊢
  have pdReached : tableOf linked [addr.PML4, addr.directoryPtr] = some pd :=
    tableOf_child (extended.kept reached) (by simp) names
  have breakRoom :=
    room.trans
      (NeverRaises.after_first
        (fun _ => mapInDirectory_descends addr phys pd) linked)
  rcases
      breakFirst_spec extended.tables pdReached (by simp) breakRoom with
    ⟨middle, breaks, later, firstPointer, -, unchanged⟩
  rw [bind_of_ok breaks]
  refine
    ⟨middle, pd,
      { extended := extended.trans later
        reached := later.kept pdReached
        firstPointer := firstPointer
        untouched := ?_ }, rfl⟩
  intro different
  rw [unchanged different, sameFirst]

/-- `map` comes down to the directory of its address. -/
theorem map_prepared
    (tables : PageTables image machine)
    {addr : Vaddr} {phys : U64}
    (room :
      (image.edata : Int) ≤
        (finalState (map addr phys machine)).allocationAddr) :
    ∃ middle pd,
      Prepared image machine middle addr pd ∧
        map addr phys machine = mapInDirectory addr phys pd middle := by
  have reached : tableOf machine [] = some machine.root := rfl
  have pointer :
      (machine.memory (slotAddress machine.root addr.PML4)).getLsbD 7 =
        false :=
    notLarge_of_ne_directory tables reached (by simp) (by simp)
  rw [map_run, mapFromRoot] at room ⊢
  have ensureRoom :=
    room.trans
      (NeverRaises.after_first
        (fun _ =>
          (load_descends _).bind fun _ => mapInPointerTable_descends _ _ _)
        machine)
  rcases ensureTable_spec tables reached (by simp) pointer ensureRoom with
    ⟨linked, table, runs, extended, names, sameFirst⟩
  have tableEq :
      (pml4ePDPTptr
        (linked.memory
          (slotAddress machine.root addr.PML4))).toNat = table :=
    toNat_pointer_of_names names
  rw [bind_of_ok runs, bind_of_ok (load_run _ _), tableEq] at room ⊢
  have tableReached : tableOf linked [addr.PML4] = some table :=
    tableOf_child (extended.kept reached) (by simp) names
  rcases mapInPointerTable_spec extended.tables tableReached room with
    ⟨middle, pd, prepared, runsOn⟩
  exact
    ⟨middle, pd,
      { extended := extended.trans prepared.extended
        reached := prepared.reached
        firstPointer := prepared.firstPointer
        untouched := fun different =>
          (prepared.untouched different).trans sameFirst },
      runsOn⟩

end Stages

/-! ## Addresses of the boot directory -/

/-- The first GiB is what the boot directory covers. -/
theorem inDirectory_iff {v : U64} (canonical : Canonical v) :
    [(Vaddr.ofU64 v).PML4, (Vaddr.ofU64 v).directoryPtr] = [0, 0] ↔
      v.toNat < 2 ^ 30 := by
  simp only [List.cons.injEq, and_true, Fin.ext_iff, Vaddr.PML4_ofU64,
    Vaddr.directoryPtr_ofU64]
  simp only [Canonical] at canonical
  simp only [Fin.val_zero]
  omega

/-- The 2 MiB pages of the boot directory other than the first. -/
def InLargePages (v : U64) : Prop :=
  0x200000 ≤ v.toNat ∧ v.toNat < 0x40000000

instance (v : U64) : Decidable (InLargePages v) :=
  inferInstanceAs (Decidable (_ ∧ _))

/-- In the first GiB every directory entry but the first is a large page. -/
theorem inLargePages_iff {v : U64} (inFirst : v.toNat < 2 ^ 30) :
    InLargePages v ↔ (Vaddr.ofU64 v).directory ≠ 0 := by
  simp only [InLargePages, Ne, Fin.ext_iff, Vaddr.directory_ofU64,
    Fin.val_zero]
  omega

/-! ## The identity mapping of the tables -/

section Identity

variable {image : KernelImage} {machine : Machine}

/-- An entry which the boot directory still holds maps its page to itself. -/
theorem walk_of_identPde
    (tables : PageTables image machine)
    {address : U64} (inFirst : address.toNat < 2 ^ 30)
    (entry :
      machine.memory
          (slotAddress image.identPtL2 (Vaddr.ofU64 address).directory) =
        identPde (Vaddr.ofU64 address).directory) :
    machine.walk address =
      some { phys := address.toNat, writable := true } := by
  have canonical : Canonical address := by
    simp only [Canonical]
    omega
  have key : walkKey address =
      [0, 0] ++ [(Vaddr.ofU64 address).directory,
        (Vaddr.ofU64 address).table] := by
    rw [← (inDirectory_iff canonical).2 inFirst, walkKey_eq_vaddr]
    rfl
  have found :=
    tables.walk_of_leaf canonical tables.directory
      (pageNode_of_identPde entry) key
  have base :
      frameBase 21 (identPde (Vaddr.ofU64 address).directory) =
        address.toNat / 2 ^ 21 % 512 * 2 ^ 21 := by
    have bound := (Vaddr.ofU64 address).directory.isLt
    rw [frameBase, identPde_toNat, Vaddr.directory_ofU64] at *
    omega
  have phys :
      address.toNat / 2 ^ 21 % 512 * 2 ^ 21 + address.toNat % 2 ^ 21 =
        address.toNat := by
    omega
  rw [found, identPde_writable]
  simp only [List.length_singleton, Nat.mul_one, Nat.reduceAdd, base, phys]

/-- Behind the first 2 MiB page the first GiB stays mapped to itself. -/
theorem walk_of_inLargePages
    (tables : PageTables image machine)
    {address : U64} (large : InLargePages address) :
    machine.walk address =
      some { phys := address.toNat, writable := true } := by
  have inFirst : address.toNat < 2 ^ 30 := large.2
  have notFirst := (inLargePages_iff inFirst).1 large
  exact walk_of_identPde tables inFirst (tables.largePages _ notFirst)

/--
The pointers the mapper follows are their own translations, as the source
assumes: every entry of every table is mapped to itself.
-/
theorem identity_of_tables
    (tables : PageTables image machine)
    {path : List (Fin 512)} {table : Nat}
    (reached : tableOf machine path = some table) (index : Fin 512) :
    machine.walk (BitVec.ofNat 64 (slotAddress table index)) =
      some { phys := slotAddress table index, writable := true } := by
  have placed := tables.placed reached
  have above := placed.above
  have below := placed.below
  have inPage := slotAddress_mem table index
  have toNatEq :
      (BitVec.ofNat 64 (slotAddress table index)).toNat =
        slotAddress table index := by
    simp only [BitVec.toNat_ofNat]
    omega
  have large : InLargePages (BitVec.ofNat 64 (slotAddress table index)) := by
    simp only [InLargePages, toNatEq]
    omega
  rw [walk_of_inLargePages tables large, toNatEq]

end Identity

/-! ## The entry a call uses -/

section Outcome

variable {image : KernelImage} {machine middle : Machine} {v : U64} {pd : Nat}

/-- The directory met on the way to an address is that of the boot image. -/
theorem directory_iff
    (tables : PageTables image machine)
    (reached :
      tableOf machine
          [(Vaddr.ofU64 v).PML4, (Vaddr.ofU64 v).directoryPtr] =
        some pd)
    (canonical : Canonical v) :
    pd = image.identPtL2 ↔ v.toNat < 2 ^ 30 := by
  rw [← inDirectory_iff canonical]
  constructor
  · rintro rfl
    exact tables.tree reached tables.directory
  · intro samePath
    rw [samePath, tables.directory] at reached
    exact (Option.some.inj reached).symm

/--
Under a directory whose first entry names a table, the entry of an address is
a 2 MiB page exactly in the remaining large pages.
-/
theorem large_iff
    (tables : PageTables image machine)
    (reached :
      tableOf machine
          [(Vaddr.ofU64 v).PML4, (Vaddr.ofU64 v).directoryPtr] =
        some pd)
    (firstPointer :
      (machine.memory (slotAddress pd 0)).getLsbD 7 = false)
    (canonical : Canonical v) :
    (machine.memory
        (slotAddress pd (Vaddr.ofU64 v).directory)).getLsbD 7 = true ↔
      InLargePages v := by
  by_cases inFirst : v.toNat < 2 ^ 30
  · have samePd := (directory_iff tables reached canonical).2 inFirst
    subst samePd
    rw [inLargePages_iff inFirst]
    by_cases first : (Vaddr.ofU64 v).directory = 0
    · simp [first, firstPointer, -BitVec.getLsbD_eq_getElem]
    · rw [tables.largePages _ first, identPde_large]
      simp [first]
  · have notDirectory := mt (inDirectory_iff canonical).1 inFirst
    have pointer :
        (machine.memory
          (slotAddress pd (Vaddr.ofU64 v).directory)).getLsbD 7 = false :=
      notLarge_of_ne_directory tables reached (by simp) notDirectory
    simp only [pointer, InLargePages]
    simp
    omega

/-- The first large page is split once an address of the first GiB is mapped. -/
theorem Prepared.firstSplit_iff
    (prepared : Prepared image machine middle (Vaddr.ofU64 v) pd)
    (canonical : Canonical v) :
    FirstSplit image middle ↔
      FirstSplit image machine ∨ v.toNat < 2 ^ 30 := by
  by_cases inFirst : v.toNat < 2 ^ 30
  · have samePd :=
      (directory_iff prepared.extended.tables prepared.reached
        canonical).2 inFirst
    have firstPointer := prepared.firstPointer
    subst samePd
    exact ⟨fun _ => Or.inr inFirst, fun _ => firstPointer⟩
  · have different :=
      mt (directory_iff prepared.extended.tables prepared.reached
        canonical).1 inFirst
    simp only [FirstSplit, prepared.untouched different, inFirst, or_false]

end Outcome

/-! ## Outcome of a call -/

/-- What `map(v, p)` changes. -/
structure MapsPage (image : KernelImage) (before after : Machine)
    (v p : U64) : Prop where
  tables : PageTables image after
  onPage :
    ∀ address, SamePage address v →
      after.walk address =
        some
          { phys := p.toNat % 2 ^ 52 / 4096 * 4096 + address.toNat % 4096
            writable := true }
  elsewhere :
    ∀ address, ¬ SamePage address v →
      after.walk address = before.walk address
  firstSplit :
    FirstSplit image after ↔ FirstSplit image before ∨ v.toNat < 2 ^ 21

section Call

variable {image : KernelImage} {machine : Machine} {v p : U64}

/-- On a large page `map` fails. -/
theorem map_fails
    (tables : PageTables image machine) (canonical : Canonical v)
    (large : InLargePages v)
    (room :
      (image.edata : Int) ≤
        (finalState
          (map (Vaddr.ofU64 v) p machine)).allocationAddr) :
    ∃ after,
      map (Vaddr.ofU64 v) p machine =
        .error (.assertFailed "type() == pd_type::PD_PT") after := by
  rcases map_prepared tables room with ⟨middle, pd, prepared, runs⟩
  rw [runs]
  exact
    ⟨middle,
      mapInDirectory_run_of_large
        ((large_iff prepared.extended.tables prepared.reached
          prepared.firstPointer canonical).2 large) p⟩

/-- The indices under which the table of an address is met. -/
def tablePath (v : U64) : List (Fin 512) :=
  [(Vaddr.ofU64 v).PML4, (Vaddr.ofU64 v).directoryPtr] ++
    [(Vaddr.ofU64 v).directory]

section Assigned

variable {linked after : Machine} {table : Nat} {old : U64}

/-- Assigning the entry of `v` maps its page to the frame of `p`. -/
theorem walk_onPage_of_assigns
    (assigns :
      AssignsPage linked after table (Vaddr.ofU64 v).table (pageEntry old p))
    (tables : PageTables image linked)
    (reached : tableOf linked (tablePath v) = some table)
    (canonical : Canonical v) {address : U64} (same : SamePage address v) :
    after.walk address =
      some
        { phys := p.toNat % 2 ^ 52 / 4096 * 4096 + address.toNat % 4096
          writable := true } := by
  have addressCanonical := SamePage.canonical same canonical
  have key :
      walkKey address = tablePath v ++ [(Vaddr.ofU64 v).table] :=
    ((walkKey_eq_iff addressCanonical canonical).2 same).trans
      (walkKey_eq_vaddr v)
  rw [assigns.walk_self tables reached rfl addressCanonical key, pageEntry,
    frameBase_setPointer]
  simp only [Nat.reducePow]

/-- The slot of a page decides on its own page only. -/
theorem walk_elsewhere_of_assigns
    {entry : U64}
    (assigns :
      AssignsPage linked after table (Vaddr.ofU64 v).table entry)
    (tables : PageTables image linked)
    (reached : tableOf linked (tablePath v) = some table)
    (canonical : Canonical v)
    {address : U64} (different : ¬ SamePage address v) :
    after.walk address = linked.walk address := by
  by_cases addressCanonical : Canonical address
  · apply assigns.walk_other tables reached rfl
    intro key
    apply different
    rw [← walkKey_eq_iff addressCanonical canonical, key, walkKey_eq_vaddr]
    rfl
  · rw [Machine.walk, Machine.walk, AddressTranslation.walk,
      AddressTranslation.walk, if_neg addressCanonical,
      if_neg addressCanonical]

theorem firstSlot_of_assigns
    {entry : U64}
    (assigns :
      AssignsPage linked after table (Vaddr.ofU64 v).table entry)
    (tables : PageTables image linked)
    (reached : tableOf linked (tablePath v) = some table) :
    after.memory (slotAddress image.identPtL2 0) =
      linked.memory (slotAddress image.identPtL2 0) := by
  apply assigns.slot_eq tables reached tables.directory
  apply Or.inl
  rintro rfl
  have samePath := tables.tree reached tables.directory
  simp [tablePath] at samePath

end Assigned

/-- Elsewhere `map` returns, with its page mapped and the others as they were.
-/
theorem map_returns
    (tables : PageTables image machine) (canonical : Canonical v)
    (notLarge : ¬ InLargePages v)
    (room :
      (image.edata : Int) ≤
        (finalState
          (map (Vaddr.ofU64 v) p machine)).allocationAddr) :
    ∃ after,
      map (Vaddr.ofU64 v) p machine = .ok () after ∧
        MapsPage image machine after v p := by
  rcases map_prepared tables room with ⟨middle, pd, prepared, runs⟩
  have pointer :
      (middle.memory
        (slotAddress pd (Vaddr.ofU64 v).directory)).getLsbD 7 = false := by
    rw [← Bool.not_eq_true,
      large_iff prepared.extended.tables prepared.reached
        prepared.firstPointer canonical]
    exact notLarge
  rw [runs] at room ⊢
  rcases
      mapInDirectory_spec prepared.extended.tables prepared.reached
        (by simp) pointer room with
    ⟨linked, table, after, maps, extended, reached, assigns, sameFirst⟩
  refine
    ⟨after, maps,
      { tables := assigns.preserves extended.tables reached rfl
        onPage := fun _ same =>
          walk_onPage_of_assigns assigns extended.tables reached canonical same
        elsewhere := ?_
        firstSplit := ?_ }⟩
  · intro address different
    rw [← prepared.extended.walks address, ← extended.walks address]
    exact
      walk_elsewhere_of_assigns assigns extended.tables reached canonical
        different
  · have sameSlot := firstSlot_of_assigns assigns extended.tables reached
    have sameSplit : FirstSplit image after ↔ FirstSplit image middle := by
      rw [FirstSplit, sameSlot, sameFirst, FirstSplit]
    rw [sameSplit, prepared.firstSplit_iff canonical]
    simp only [InLargePages] at notLarge
    have sameBound : v.toNat < 2 ^ 30 ↔ v.toNat < 2 ^ 21 := by omega
    rw [sameBound]

end Call

end NopOS.Mmu.MapRefinement
