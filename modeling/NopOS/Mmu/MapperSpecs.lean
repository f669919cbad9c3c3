import NopOS.Mmu.MapperSteps

/-!
# Specifications of the mapper over the invariant

Each step of `map` before the final assignment leaves all walks alone and
keeps the tables reached so far.  The step which splits a page is the one
with content: the 512 frames written are those the large page mapped.
-/

namespace NopOS.Mmu.MapperSpecs

open NopOS.Lib.RadixTree
open NopOS.Lib.StatefulProgram
open NopOS.Mmu.PageTableEntry
open NopOS.Mmu.AddressTranslation
open NopOS.Mmu.PhysicalMachine
open NopOS.Mmu.Mapper
open NopOS.Mmu.TableInvariant
open NopOS.Mmu.TableUpdate
open NopOS.Mmu.MapperSteps

/-- The first 2 MiB page of the boot directory has been split. -/
def FirstSplit (image : KernelImage) (machine : Machine) : Prop :=
  (machine.memory (slotAddress image.identPtL2 0)).getLsbD 7 = false

instance (image : KernelImage) (machine : Machine) :
    Decidable (FirstSplit image machine) :=
  inferInstanceAs (Decidable (_ = _))

/-- A step which changes no walk and keeps every table. -/
structure Extends (image : KernelImage) (before after : Machine) : Prop where
  tables : PageTables image after
  sameRoot : after.root = before.root
  kept :
    ∀ {path table},
      tableOf before path = some table → tableOf after path = some table
  walks : ∀ address, after.walk address = before.walk address

theorem Extends.refl
    {image : KernelImage} {machine : Machine}
    (tables : PageTables image machine) :
    Extends image machine machine :=
  ⟨tables, rfl, id, fun _ => rfl⟩

theorem Extends.trans
    {image : KernelImage} {first second third : Machine}
    (earlier : Extends image first second)
    (later : Extends image second third) :
    Extends image first third where
  tables := later.tables
  sameRoot := later.sameRoot.trans earlier.sameRoot
  kept := fun reached => later.kept (earlier.kept reached)
  walks := fun address =>
    (later.walks address).trans (earlier.walks address)

/-! ## The page the allocator gives -/

section Allocation

variable {image : KernelImage} {machine : Machine}

theorem nextPage_toNat
    (tables : PageTables image machine)
    (room : (image.edata : Int) ≤ machine.allocationAddr - 4096) :
    ((nextPage machine).toNat : Int) = machine.allocationAddr - 4096 := by
  have upper := tables.allocator_le
  simp only [nextPage, BitVec.toNat_ofInt]
  omega

theorem nextPage_aligned
    (tables : PageTables image machine)
    (room : (image.edata : Int) ≤ machine.allocationAddr - 4096) :
    4096 ∣ (nextPage machine).toNat := by
  have pageEq := nextPage_toNat tables room
  have aligned := tables.allocator_aligned
  omega

theorem nextPage_physical
    (tables : PageTables image machine)
    (room : (image.edata : Int) ≤ machine.allocationAddr - 4096) :
    (nextPage machine).toNat < 2 ^ 52 := by
  have pageEq := nextPage_toNat tables room
  have upper := tables.allocator_le
  omega

/-- No slot of a table lies in the page given next. -/
theorem slot_not_in_nextPage
    (tables : PageTables image machine)
    (room : (image.edata : Int) ≤ machine.allocationAddr - 4096)
    {path : List (Fin 512)} {table : Nat}
    (reached : tableOf machine path = some table) (index : Fin 512) :
    ¬ ((nextPage machine).toNat ≤ slotAddress table index ∧
      slotAddress table index < (nextPage machine).toNat + 4096) := by
  have placed := tables.placed reached
  have pageEq := nextPage_toNat tables room
  rw [slotAddress_in_page_iff placed.aligned (nextPage_aligned tables room)]
  intro same
  have apart := placed.apart
  omega

end Allocation

/-! ## Making sure that an entry names a table -/

/-- Off the boot directory an entry is absent or names a table. -/
theorem absent_or_names
    {image : KernelImage} {machine : Machine}
    (tables : PageTables image machine)
    {path : List (Fin 512)} {table : Nat} {index : Fin 512}
    (reached : tableOf machine path = some table)
    (above : path.length < 3)
    (notLarge :
      (machine.memory (slotAddress table index)).getLsbD 7 = false) :
    machine.memory (slotAddress table index) = 0 ∨
      ∃ next, NamesTable (machine.memory (slotAddress table index)) next := by
  cases tables.shape index reached with
  | empty zero => exact Or.inl zero
  | page last present writable => omega
  | table _ next names => exact Or.inr ⟨next, names⟩
  | large directory ident =>
      rw [ident, identPde_large] at notLarge
      simp at notLarge

/-- The new page linked under an absent entry. -/
theorem linksFrame_of_zero
    {image : KernelImage} {machine : Machine}
    (tables : PageTables image machine) (table : Nat) (index : Fin 512)
    (room : (image.edata : Int) ≤ machine.allocationAddr - 4096) :
    LinksFrame image machine
      (linkedMachine machine (slotAddress table index)) table index
      (nextPage machine).toNat where
  sameCr3 := rfl
  takesFrame := rfl
  frame_eq := nextPage_toNat tables room
  room := room
  names := by
    simp only [linkedMachine, Function.update_self]
    exact
      namesTable_pageEntry_zero (nextPage_aligned tables room)
        (nextPage_physical tables room)
  elsewhere := by
    intro address notSlot notInPage
    simp only [linkedMachine, Function.update_of_ne notSlot, clearPage,
      if_neg notInPage]

/-- A frame that is linked has no entry. -/
theorem linkedMachine_empty
    {image : KernelImage} {machine : Machine}
    (tables : PageTables image machine)
    {path : List (Fin 512)} {table : Nat}
    (reached : tableOf machine path = some table) (index : Fin 512)
    (room : (image.edata : Int) ≤ machine.allocationAddr - 4096)
    (frameIndex : Fin 512) :
    (linkedMachine machine (slotAddress table index)).memory
      (slotAddress (nextPage machine).toNat frameIndex) = 0 := by
  have inPage := slotAddress_mem (nextPage machine).toNat frameIndex
  have notSlot :
      slotAddress (nextPage machine).toNat frameIndex ≠
        slotAddress table index := by
    intro same
    exact slot_not_in_nextPage tables room reached index (same ▸ inPage)
  simp only [linkedMachine, Function.update_of_ne notSlot, clearPage,
    if_pos inPage]

/-- The boot directory has no absent entry. -/
theorem ne_identPtL2_of_zero
    {image : KernelImage} {machine : Machine}
    (tables : PageTables image machine) {table : Nat} {index : Fin 512}
    (zero : machine.memory (slotAddress table index) = 0) :
    table ≠ image.identPtL2 := by
  rintro rfl
  by_cases first : index = 0
  · subst index
    rcases tables.firstPage with ident | ⟨next, names⟩
    · exact identPde_ne_zero 0 (ident.symm.trans zero)
    · have present := names.present
      rw [zero] at present
      simp at present
  · exact
      identPde_ne_zero index
        ((tables.largePages index first).symm.trans zero)

/-- The empty page linked under an absent entry is a new table. -/
theorem linksTable_linkedMachine
    {image : KernelImage} {machine : Machine}
    (tables : PageTables image machine)
    {path : List (Fin 512)} {table : Nat} {index : Fin 512}
    (reached : tableOf machine path = some table)
    (above : path.length < 3)
    (zero : machine.memory (slotAddress table index) = 0)
    (room : (image.edata : Int) ≤ machine.allocationAddr - 4096) :
    LinksTable (nodes machine)
      (nodes (linkedMachine machine (slotAddress table index)))
      machine.root path table index (nextPage machine).toNat true := by
  have empty := linkedMachine_empty tables reached index room
  have absent : nodes machine path.length table index = .absent :=
    pageNode_of_zero zero
  have emptyNodes :
      ∀ frameIndex,
        nodes (linkedMachine machine (slotAddress table index))
          (path.length + 1) (nextPage machine).toNat frameIndex =
            .absent :=
    fun frameIndex => pageNode_of_zero (empty frameIndex)
  exact
    (linksFrame_of_zero tables table index room).linksTable tables reached
      above (by simp [absent]) (by simp [emptyNodes])

/-- Linking an empty page under an absent entry extends the tables. -/
theorem extends_linkedMachine
    {image : KernelImage} {machine : Machine}
    (tables : PageTables image machine)
    {path : List (Fin 512)} {table : Nat} {index : Fin 512}
    (reached : tableOf machine path = some table)
    (above : path.length < 3)
    (zero : machine.memory (slotAddress table index) = 0)
    (room : (image.edata : Int) ≤ machine.allocationAddr - 4096) :
    Extends image machine
      (linkedMachine machine (slotAddress table index)) := by
  have links := linksFrame_of_zero tables table index room
  have empty := linkedMachine_empty tables reached index room
  have change := linksTable_linkedMachine tables reached above zero room
  refine
    { tables := ?_
      sameRoot := links.sameRoot
      kept := ?_
      walks := ?_ }
  · exact
      links.preserves tables reached above change.noChild change.childless
        (fun frameIndex => .empty (empty frameIndex))
        (fun same => (ne_identPtL2_of_zero tables zero same).elim)
  · intro other met metReached
    exact (links.tableOf_iff tables change other met).2 (Or.inl metReached)
  · exact
      links.walk_eq tables reached above (pageNode_of_zero zero) empty

/-- After `ensureTable` there is a table below the entry, the old one or an
empty one. -/
theorem ensureTable_spec
    {image : KernelImage} {machine : Machine}
    (tables : PageTables image machine)
    {path : List (Fin 512)} {table : Nat} {index : Fin 512}
    (reached : tableOf machine path = some table)
    (above : path.length < 3)
    (notLarge :
      (machine.memory (slotAddress table index)).getLsbD 7 = false)
    (room :
      (image.edata : Int) ≤
        (finalState
          (ensureTable FrameEntry.standard (slotAddress table index)
            machine)).allocationAddr) :
    ∃ after next,
      ensureTable FrameEntry.standard (slotAddress table index) machine =
          .ok () after ∧
        Extends image machine after ∧
        NamesTable (after.memory (slotAddress table index)) next ∧
        after.memory (slotAddress image.identPtL2 0) =
          machine.memory (slotAddress image.identPtL2 0) := by
  rcases absent_or_names tables reached above notLarge with
    zero | ⟨next, names⟩
  · rcases ensureTable_run_of_zero zero with
      ⟨after, runs, takes, linked⟩
    rw [runs, finalState_ok, takes] at room
    rw [linked (slot_not_in_nextPage tables room reached index)] at runs
    have links := linksFrame_of_zero tables table index room
    exact
      ⟨_, _, runs,
        extends_linkedMachine tables reached above zero room, links.names,
        links.slot_eq tables reached tables.directory
          (Or.inl (ne_identPtL2_of_zero tables zero).symm)⟩
  · exact
      ⟨machine, next,
        ensureTable_run_of_names names
          (PageTables.next_ne_zero tables reached above names),
        Extends.refl tables, names, rfl⟩

/-! ## Splitting the first page of a directory -/

/-- Only the boot directory has a 2 MiB page in its first slot. -/
theorem boot_directory_of_large
    {image : KernelImage} {machine : Machine}
    (tables : PageTables image machine)
    {path : List (Fin 512)} {table : Nat} {index : Fin 512}
    (reached : tableOf machine path = some table)
    (above : path.length < 3)
    (large : (machine.memory (slotAddress table index)).getLsbD 7 = true) :
    path = [0, 0] ∧ table = image.identPtL2 ∧
      machine.memory (slotAddress table index) = identPde index := by
  cases tables.shape index reached with
  | empty zero =>
      rw [zero] at large
      simp at large
  | page last present writable => omega
  | table _ next names =>
      rw [names.notLarge] at large
      simp at large
  | large directory ident =>
      subst directory
      exact
        ⟨rfl, Option.some.inj (reached.symm.trans tables.directory), ident⟩

/-- The frame entry `index` of the split page maps. -/
theorem frameBase_split (index : Fin 512) :
    frameBase 12
      (pageEntry 0
        (pdePage (identPde 0) + BitVec.ofNat 64 (4096 * index.val))) =
      4096 * index.val := by
  have bound := index.isLt
  have firstPage :
      pdePage (identPde 0) + BitVec.ofNat 64 (4096 * index.val) =
        BitVec.ofNat 64 (4096 * index.val) := by
    rw [show pdePage (identPde 0) = 0#64 by decide, BitVec.zero_add]
  rw [pageEntry, frameBase_setPointer, firstPage, BitVec.toNat_ofNat]
  omega

/-- The first 2 MiB page became a table of the 4 KiB frames it mapped. -/
structure SplitsFirst (image : KernelImage) (before after : Machine) :
    Prop where
  ident : before.memory (slotAddress image.identPtL2 0) = identPde 0
  links :
    LinksFrame image before after image.identPtL2 0 (nextPage before).toNat
  filled :
    ∀ index : Fin 512,
      after.memory (slotAddress (nextPage before).toNat index) =
        pageEntry 0
          (pdePage (identPde 0) + BitVec.ofNat 64 (4096 * index.val))

namespace SplitsFirst

variable {image : KernelImage} {before after : Machine}

theorem leaf (splits : SplitsFirst image before after) :
    nodes before ([0, 0] : List (Fin 512)).length image.identPtL2 0 =
      .leaf (identPde 0) :=
  pageNode_of_identPde splits.ident

theorem noChild
    (splits : SplitsFirst image before after) (next : Nat) (label : Bool) :
    nodes before ([0, 0] : List (Fin 512)).length image.identPtL2 0 ≠
      .child next label := by
  rw [splits.leaf]
  simp

theorem present
    (splits : SplitsFirst image before after) (index : Fin 512) :
    (after.memory
      (slotAddress (nextPage before).toNat index)).getLsbD 0 = true := by
  rw [splits.filled, pageEntry_getLsbD _ _ (by decide)]
  rfl

theorem writable
    (splits : SplitsFirst image before after) (index : Fin 512) :
    (after.memory
      (slotAddress (nextPage before).toNat index)).getLsbD 1 = true := by
  rw [splits.filled, pageEntry_getLsbD _ _ (by decide)]
  rfl

/-- The split adds a table in place of the large page. -/
theorem linksTable
    (splits : SplitsFirst image before after)
    (tables : PageTables image before) :
    LinksTable (nodes before) (nodes after) before.root [0, 0]
      image.identPtL2 0 (nextPage before).toNat true :=
  splits.links.linksTable tables tables.directory (by decide)
    splits.noChild
    (pageNode_last_ne_child after.memory (le_refl 3) _)

/-- The split leaves page tables. -/
theorem preserves
    (splits : SplitsFirst image before after)
    (tables : PageTables image before) :
    PageTables image after :=
  splits.links.preserves tables tables.directory (by decide) splits.noChild
    (pageNode_last_ne_child after.memory (le_refl 3) _)
    (fun index => .page rfl (splits.present index) (splits.writable index))
    (fun _ => rfl)

/-- The frames of the split page are those of the page. -/
theorem walk_through
    (splits : SplitsFirst image before after)
    (tables : PageTables image before)
    {address : U64} (canonical : Canonical address)
    (key : walkKey address = [0, 0, 0, tableIndex 0 address]) :
    after.walk address = before.walk address := by
  have identWritable : (identPde 0).getLsbD 1 = true := identPde_writable 0
  have identBase : frameBase 21 (identPde 0) = 0 := by decide
  have reached :
      tableOf after [0, 0, 0] = some (nextPage before).toNat := by
    rw [tableOf, splits.links.sameRoot]
    exact (splits.linksTable tables).tableAt_fresh tables.tree
  have walkAfter :=
    (splits.preserves tables).walk_of_leaf  canonical reached
      (pageNode_of_present_last (splits.present _)) key
  have walkBefore :=
    tables.walk_of_leaf  canonical
      tables.directory splits.leaf key
  have samePhys :
      frameBase 12
            (pageEntry 0
              (pdePage (identPde 0) +
                BitVec.ofNat 64 (4096 * (tableIndex 0 address).val))) +
          address.toNat % 2 ^ 12 =
        frameBase 21 (identPde 0) + address.toNat % 2 ^ 21 := by
    rw [frameBase_split, identBase]
    simp only [tableIndex]
    omega
  rw [walkAfter, walkBefore, splits.writable, identWritable, splits.filled]
  simp only [List.length_nil, List.length_singleton, Nat.mul_zero,
    Nat.add_zero, Nat.mul_one, Nat.reduceAdd, samePhys]

/-- The split leaves every translation as it was. -/
theorem walk_eq
    (splits : SplitsFirst image before after)
    (tables : PageTables image before) (address : U64) :
    after.walk address = before.walk address := by
  by_cases canonical : Canonical address
  · by_cases through : [0, 0] ++ [(0 : Fin 512)] <+: walkKey address
    · rcases through with ⟨rest, key⟩
      have restEq : rest = [tableIndex 0 address] := by
        simp only [walkKey, List.cons_append, List.nil_append,
          List.cons.injEq] at key
        exact key.2.2.2
      subst rest
      exact splits.walk_through tables canonical key.symm
    · apply PageTables.walk_congr splits.links.sameRoot
      rw [splits.links.sameRoot]
      exact
        (splits.linksTable tables).toChangesSlot.lookup_of_not_through
          tables.tree through
  · rw [Machine.walk, Machine.walk, AddressTranslation.walk,
      AddressTranslation.walk, if_neg canonical, if_neg canonical]

theorem extended
    (splits : SplitsFirst image before after)
    (tables : PageTables image before) :
    Extends image before after where
  tables := splits.preserves tables
  sameRoot := splits.links.sameRoot
  kept := by
    intro other met reached
    exact
      (splits.links.tableOf_iff tables (splits.linksTable tables) other
        met).2 (Or.inl reached)
  walks := splits.walk_eq tables

end SplitsFirst

/-- `break_2m` on the first page of the boot directory. -/
theorem break2m_first_spec
    {image : KernelImage} {machine : Machine}
    (tables : PageTables image machine)
    (ident :
      machine.memory (slotAddress image.identPtL2 0) = identPde 0)
    (room :
      (image.edata : Int) ≤
        (finalState
          (break2m (slotAddress image.identPtL2 0)
            machine)).allocationAddr) :
    ∃ after,
      break2m (slotAddress image.identPtL2 0) machine = .ok () after ∧
        SplitsFirst image machine after := by
  rcases break2m_run (slotAddress image.identPtL2 0) machine with
    ⟨after, runs, sameCr3, takes, contents⟩
  rw [runs, finalState_ok, takes] at room
  have aligned := nextPage_aligned tables room
  have physical := nextPage_physical tables room
  rcases
      contents (nextPage machine) rfl aligned physical
        (slot_not_in_nextPage tables room tables.directory 0) with
    ⟨slotEntry, filled, elsewhere⟩
  rw [ident] at slotEntry filled
  refine ⟨after, runs, ident, ?_, filled⟩
  exact
    { sameCr3 := sameCr3
      takesFrame := takes
      frame_eq := (nextPage_toNat tables room).trans takes.symm
      room := by rwa [takes]
      names := by
        rw [slotEntry]
        apply namesTable_setPointer _ _ _ aligned physical <;>
          rw [getLsbD_pdeSetType_PD_PT] <;>
          decide
      elsewhere := elsewhere }

/-- After `breakFirst` the first entry of the directory is no large page. -/
theorem breakFirst_spec
    {image : KernelImage} {machine : Machine}
    (tables : PageTables image machine)
    {path : List (Fin 512)} {pd : Nat}
    (reached : tableOf machine path = some pd)
    (above : path.length < 3)
    (room :
      (image.edata : Int) ≤
        (finalState (breakFirst pd machine)).allocationAddr) :
    ∃ after,
      breakFirst pd machine = .ok () after ∧
        Extends image machine after ∧
        (after.memory (slotAddress pd 0)).getLsbD 7 = false ∧
        (∀ index : Fin 512, index ≠ 0 →
          after.memory (slotAddress pd index) =
            machine.memory (slotAddress pd index)) ∧
        (pd ≠ image.identPtL2 → after = machine) := by
  rw [breakFirst, bind_of_ok (load_run _ _)] at room ⊢
  by_cases large : (machine.memory (slotAddress pd 0)).getLsbD 7 = true
  · rw [if_pos ((pdeType_eq_PD_2M_iff _).2 large)] at room ⊢
    rcases boot_directory_of_large tables reached above large with
      ⟨-, rfl, ident⟩
    rcases break2m_first_spec tables ident room with
      ⟨after, runs, splits⟩
    exact
      ⟨after, runs, splits.extended tables, splits.links.names.notLarge,
        fun index notFirst =>
          splits.links.slot_eq tables reached reached (Or.inr notFirst),
        fun different => (different rfl).elim⟩
  · rw [if_neg (by rwa [pdeType_eq_PD_2M_iff])] at room ⊢
    exact
      ⟨machine, rfl, Extends.refl tables, by simpa using large,
        fun _ _ => rfl, fun _ => rfl⟩

end NopOS.Mmu.MapperSpecs
