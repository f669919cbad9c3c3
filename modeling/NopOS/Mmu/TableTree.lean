import NopOS.Mmu.PageFrames

/-!
# Page tables stay a tree

The tables are met by following, from the PML4 on, every entry which is
neither zero nor a 2 MiB page.  Whatever calls of `map` have returned, the
tables met are those of `boot.S` and the frames the allocator has given, each
of them at one place: a call only hangs a frame just taken under an entry
which named no table, or assigns an entry of a page table.

The addresses of the calls are any values a `vaddr` may hold, and the
physical addresses any 64-bit values.
-/

namespace NopOS.Mmu.TableTree

open NopOS.Lib.RadixTree
open NopOS.Lib.StatefulProgram
open NopOS.Lib.LabelledRun
open NopOS.Mmu.PageTableEntry
open NopOS.Mmu.AddressTranslation
open NopOS.Mmu.PhysicalMachine
open NopOS.Mmu.Mapper
open NopOS.Mmu.TableInvariant
open NopOS.Mmu.TableUpdate
open NopOS.Mmu.MapperSteps
open NopOS.Mmu.MapperSpecs
open NopOS.Mmu.MapRefinement
open NopOS.Mmu.MapRuns
open NopOS.Mmu.PageFrames

/-! ## Frames given in a row -/

theorem framesBelow_append (top : Int) (first second : Nat) :
    framesBelow top (first + second) =
      framesBelow top first ++
        framesBelow (top - 4096 * (first : Int)) second := by
  induction first generalizing top with
  | zero => simp [framesBelow]
  | succ first induction =>
      have later :
          top - 4096 - 4096 * (first : Int) =
            top - 4096 * ((first + 1 : Nat) : Int) := by
        push_cast
        ring
      rw [Nat.add_right_comm, framesBelow, induction, later]
      rfl

/-! ## Tables added to the tree -/

/-- A frame which became a table, and the indices under which it is met. -/
structure NewTable where
  path : List (Fin 512)
  frame : Nat

/-- The tables afterwards are those before and the ones created, in order. -/
structure Grows (image : KernelImage) (before after : Machine)
    (created : List NewTable) : Prop where
  tables : PageTables image after
  met_iff :
    ∀ path table,
      tableOf after path = some table ↔
        tableOf before path = some table ∨ ⟨path, table⟩ ∈ created
  frames :
    created.map (fun new => BitVec.ofNat 64 new.frame) =
      framesBelow before.allocationAddr created.length
  taken :
    after.allocationAddr = before.allocationAddr - 4096 * created.length

namespace Grows

variable
    {image : KernelImage} {before middle after : Machine}
    {path : List (Fin 512)} {table : Nat} {index : Fin 512}

theorem refl (tables : PageTables image before) :
    Grows image before before [] where
  tables := tables
  met_iff := by simp
  frames := rfl
  taken := by simp

/-- What two steps create, they create together. -/
theorem trans
    {created later : List NewTable}
    (first : Grows image before middle created)
    (second : Grows image middle after later) :
    Grows image before after (created ++ later) where
  tables := second.tables
  met_iff path table := by
    rw [second.met_iff, first.met_iff, List.mem_append, or_assoc]
  frames := by
    rw [List.map_append, List.length_append, framesBelow_append,
      first.frames, second.frames, first.taken]
  taken := by
    rw [second.taken, first.taken, List.length_append]
    push_cast
    ring

theorem kept
    {created : List NewTable}
    (grows : Grows image before after created)
    (reached : tableOf before path = some table) :
    tableOf after path = some table :=
  (grows.met_iff path table).2 (Or.inl reached)

/-- Linking the frame just given adds it below the entry. -/
theorem of_links
    {frame : Nat}
    (tables : PageTables image before)
    (extended : Extends image before after)
    (links : LinksFrame image before after table index frame)
    (change :
      LinksTable (nodes before) (nodes after) before.root path table index
        frame true) :
    Grows image before after [⟨path ++ [index], frame⟩] where
  tables := extended.tables
  met_iff other met := by
    rw [links.tableOf_iff tables change, List.mem_singleton,
      NewTable.mk.injEq]
  frames := by
    have position : before.allocationAddr - 4096 = (frame : Int) := by
      rw [links.frame_eq, links.takesFrame]
    rw [List.length_singleton, framesBelow, framesBelow, position,
      BitVec.ofInt_natCast]
    rfl
  taken := by
    rw [links.takesFrame]
    rfl

/-- Assigning an entry of a page table adds none. -/
theorem of_assigns
    {entry : U64}
    (tables : PageTables image before)
    (reached : tableOf before path = some table)
    (last : path.length = 3)
    (assigns : AssignsPage before after table index entry) :
    Grows image before after [] where
  tables := assigns.preserves tables reached last
  met_iff other met := by
    rw [assigns.tableOf_eq tables reached last]
    simp
  frames := rfl
  taken := by
    rw [assigns.sameAllocator]
    simp

end Grows

/-! ## Stages of a call -/

section Stages

variable
    {image : KernelImage} {machine after : Machine}
    {path : List (Fin 512)} {table : Nat} {index : Fin 512}

/-- What comes before a state with room left room as well. -/
theorem hasRoom_of_returns
    {Result : Type} {program : Exec Result} {result : Result}
    (descends : Descends program)
    (returns : program machine = .ok result after)
    (room : HasRoom image after) :
    HasRoom image machine := by
  have lower := descends machine
  rw [returns, finalState_ok] at lower
  exact room.trans lower

/-- A missing table is created, or none. -/
theorem ensureTable_grows
    (tables : PageTables image machine)
    (reached : tableOf machine path = some table)
    (above : path.length < 3)
    (notLarge :
      (machine.memory (slotAddress table index)).getLsbD 7 = false)
    (returns :
      ensureTable FrameEntry.standard (slotAddress table index) machine =
        .ok () after)
    (room : HasRoom image after) :
    ∃ created next,
      Grows image machine after created ∧
        tableOf after (path ++ [index]) = some next ∧
        (FrameEntry.standard.pointer
          (after.memory (slotAddress table index))).toNat = next := by
  rcases absent_or_names tables reached above notLarge with
    zero | ⟨next, names⟩
  · rcases ensureTable_run_of_zero zero with ⟨other, runs, takes, linked⟩
    rw [returns] at runs
    cases runs
    rw [HasRoom, takes] at room
    obtain rfl := linked (slot_not_in_nextPage tables room reached index)
    have links := linksFrame_of_zero tables table index room
    have change := linksTable_linkedMachine tables reached above zero room
    have grows :=
      Grows.of_links tables
        (extends_linkedMachine tables reached above zero room) links change
    exact
      ⟨_, _, grows, tableOf_child (grows.kept reached) above links.names,
        toNat_pointer_of_names links.names⟩
  · have runs :=
      ensureTable_run_of_names names
        (PageTables.next_ne_zero tables reached above names)
    rw [returns] at runs
    cases runs
    exact
      ⟨[], next, .refl tables, tableOf_child reached above names,
        toNat_pointer_of_names names⟩

/-- A split creates a table, or none. -/
theorem breakFirst_grows
    {pd : Nat}
    (tables : PageTables image machine)
    (reached : tableOf machine path = some pd)
    (above : path.length < 3)
    (returns : breakFirst pd machine = .ok () after)
    (room : HasRoom image after) :
    ∃ created, Grows image machine after created := by
  rw [breakFirst, bind_of_ok (load_run _ _)] at returns
  by_cases large : (machine.memory (slotAddress pd 0)).getLsbD 7 = true
  · rw [if_pos ((pdeType_eq_PD_2M_iff _).2 large)] at returns
    rcases boot_directory_of_large tables reached above large with
      ⟨-, rfl, ident⟩
    have callRoom :
        (image.edata : Int) ≤
          (finalState
            (break2m (slotAddress image.identPtL2 0)
              machine)).allocationAddr := by
      rw [returns]
      exact room
    rcases break2m_first_spec tables ident callRoom with
      ⟨other, runs, splits⟩
    rw [returns] at runs
    cases runs
    exact
      ⟨_, .of_links tables (splits.extended tables) splits.links
        (splits.linksTable tables)⟩
  · rw [if_neg (by rwa [pdeType_eq_PD_2M_iff])] at returns
    cases returns
    exact ⟨[], .refl tables⟩

theorem mapInDirectory_grows
    {addr : Vaddr} {phys : U64} {pd : Nat}
    (tables : PageTables image machine)
    (reached : tableOf machine path = some pd) (depth : path.length = 2)
    (returns : mapInDirectory addr phys pd machine = .ok () after)
    (room : HasRoom image after) :
    ∃ created, Grows image machine after created := by
  have notLarge :
      (machine.memory (slotAddress pd addr.directory)).getLsbD 7 = false := by
    rw [← Bool.not_eq_true]
    intro large
    rw [mapInDirectory_run_of_large large] at returns
    cases returns
  rw [mapInDirectory, bind_of_ok (pdeToPt_run_of_pointer notLarge),
    pdePt_eq_standard] at returns
  rcases ok_of_bind returns with ⟨⟨⟩, linked, ensures, stores⟩
  have linkedRoom :=
    hasRoom_of_returns
      ((load_descends _).bind fun _ => assignPte_descends _ _) stores room
  rcases
      ensureTable_grows tables reached (by omega) notLarge ensures
        linkedRoom with
    ⟨created, next, grows, child, pointer⟩
  have pt :
      (pdePtPt
        (linked.memory (slotAddress pd addr.directory))).toNat = next :=
    pointer
  rw [bind_of_ok (load_run _ _), pt] at stores
  rcases assignPte_assigns linked next addr.table phys with
    ⟨other, runs, assigns⟩
  rw [stores] at runs
  cases runs
  have last : (path ++ [addr.directory]).length = 3 := by
    rw [List.length_append, List.length_singleton, depth]
  exact
    ⟨_, grows.trans (.of_assigns grows.tables child last assigns)⟩

/-- `map` creates at most a directory, the table of its first entry and one for
the page. -/
theorem mapInPointerTable_grows
    {addr : Vaddr} {phys : U64}
    (tables : PageTables image machine)
    (reached : tableOf machine [addr.PML4] = some table)
    (returns :
      mapInPointerTable addr phys (slotAddress table addr.directoryPtr)
          machine =
        .ok () after)
    (room : HasRoom image after) :
    ∃ created, Grows image machine after created := by
  have notLarge :
      (machine.memory (slotAddress table addr.directoryPtr)).getLsbD 7 =
        false :=
    notLarge_of_ne_directory tables reached (by simp) (by simp)
  rw [mapInPointerTable, bind_of_ok (pdpteToPd_run_of_pointer notLarge),
    pdptePd_eq_standard] at returns
  rcases ok_of_bind returns with ⟨⟨⟩, linked, ensures, follows⟩
  have linkedRoom :=
    hasRoom_of_returns
      ((load_descends _).bind fun _ =>
        (breakFirst_descends _).bind fun _ =>
          mapInDirectory_descends _ _ _) follows room
  rcases
      ensureTable_grows tables reached (by simp) notLarge ensures
        linkedRoom with
    ⟨created, pd, grows, child, pointer⟩
  have pdEq :
      (pdptePdPd
        (linked.memory (slotAddress table addr.directoryPtr))).toNat = pd :=
    pointer
  rw [bind_of_ok (load_run _ _), pdEq] at follows
  rcases ok_of_bind follows with ⟨⟨⟩, broken, breaks, maps⟩
  have brokenRoom :=
    hasRoom_of_returns (mapInDirectory_descends addr phys pd) maps room
  rcases breakFirst_grows grows.tables child (by simp) breaks brokenRoom with
    ⟨split, later⟩
  rcases
      mapInDirectory_grows later.tables (later.kept child) (by simp) maps
        room with
    ⟨last, latest⟩
  exact ⟨_, (grows.trans later).trans latest⟩

/-- A call which returned only added frames the allocator gave it. -/
theorem map_grows
    {addr : Vaddr} {phys : U64}
    (tables : PageTables image machine)
    (returns : map addr phys machine = .ok () after)
    (room : HasRoom image after) :
    ∃ created, Grows image machine after created := by
  have reached : tableOf machine [] = some machine.root := rfl
  have notLarge :
      (machine.memory (slotAddress machine.root addr.PML4)).getLsbD 7 =
        false :=
    notLarge_of_ne_directory tables reached (by simp) (by simp)
  rw [map_run, mapFromRoot] at returns
  rcases ok_of_bind returns with ⟨⟨⟩, linked, ensures, follows⟩
  have linkedRoom :=
    hasRoom_of_returns
      ((load_descends _).bind fun _ => mapInPointerTable_descends _ _ _)
      follows room
  rcases
      ensureTable_grows tables reached (by simp) notLarge ensures
        linkedRoom with
    ⟨created, pdpt, grows, child, pointer⟩
  have pdptEq :
      (pml4ePDPTptr
        (linked.memory
          (slotAddress machine.root addr.PML4))).toNat = pdpt :=
    pointer
  rw [bind_of_ok (load_run _ _), pdptEq] at follows
  rcases mapInPointerTable_grows grows.tables child follows room with
    ⟨more, later⟩
  exact ⟨_, grows.trans later⟩

end Stages

/-! ## Tables met along entries -/

/-- The accessor which gives the table, by the level of the entry. -/
def tablePointer : Nat → U64 → U64
  | 0 => pml4ePDPTptr
  | 1 => pdptePdPd
  | _ => pdePtPt

theorem tablePointer_eq (level : Nat) (entry : U64) :
    tablePointer level entry = FrameEntry.standard.pointer entry := by
  match level with
  | 0 => rfl
  | 1 => rfl
  | _ + 2 => rfl

/-- An entry above the page tables, neither zero nor a 2 MiB page. -/
def IsPointer (level : Nat) (entry : U64) : Prop :=
  level < 3 ∧ entry ≠ 0 ∧ (level = 2 → pdeType entry ≠ .PD_2M)

/-- The page an entry at this level points to. -/
def target (level : Nat) (entry : U64) : Nat :=
  (tablePointer level entry).toNat

/-- The tables met by following such entries from the PML4 on. -/
inductive Met (machine : Machine) : List (Fin 512) → Nat → Prop where
  | root : Met machine [] machine.root
  | child
      {path : List (Fin 512)} {table : Nat} (index : Fin 512)
      (parent : Met machine path table)
      (pointer :
        IsPointer path.length (machine.memory (slotAddress table index))) :
      Met machine (path ++ [index])
        (target path.length (machine.memory (slotAddress table index)))

section Entries

variable
    {image : KernelImage} {machine : Machine}
    {path : List (Fin 512)} {table : Nat} {index : Fin 512}

theorem target_of_names
    {entry : U64} {next : Nat} (names : NamesTable entry next)
    (level : Nat) : target level entry = next := by
  rw [target, tablePointer_eq]
  exact toNat_pointer_of_names names

theorem isPointer_of_names
    {level next : Nat} {entry : U64} (names : NamesTable entry next)
    (above : level < 3) : IsPointer level entry := by
  refine ⟨above, ?_, ?_⟩
  · rintro rfl
    have present := names.present
    simp at present
  · intro _ large
    rw [pdeType_eq_PD_2M_iff, names.notLarge] at large
    cases large

/-- Every entry that points down names a table. -/
theorem names_of_isPointer
    (tables : PageTables image machine)
    (reached : tableOf machine path = some table)
    (pointer :
      IsPointer path.length (machine.memory (slotAddress table index))) :
    NamesTable (machine.memory (slotAddress table index))
      (target path.length (machine.memory (slotAddress table index))) := by
  rcases pointer with ⟨above, notZero, notPage⟩
  cases tables.shape index reached with
  | empty zero => exact absurd zero notZero
  | page last present writable => omega
  | table _ next names => exact target_of_names names _ ▸ names
  | large directory ident =>
      subst directory
      refine absurd ?_ (notPage rfl)
      rw [pdeType_eq_PD_2M_iff, ident, identPde_large]

/-- The tables met so are those of the walk. -/
theorem met_iff_tableOf
    (tables : PageTables image machine) :
    Met machine path table ↔ tableOf machine path = some table := by
  constructor
  · intro met
    induction met with
    | root => rfl
    | child index _ pointer reached =>
        exact
          tableOf_child reached pointer.1
            (names_of_isPointer tables reached pointer)
  · intro reached
    induction path using List.reverseRecOn generalizing table with
    | nil =>
        obtain rfl : machine.root = table := Option.some.inj reached
        exact .root
    | append_singleton path index induction =>
        rcases (tableAt_snoc_iff _ _ _ _ _).1 reached with
          ⟨parent, label, parentReached, child⟩
        -- the walk stops at every entry of another shape
        cases tables.shape index parentReached with
        | empty zero =>
            rw [nodes, pageNode_of_zero zero] at child
            cases child
        | page last present writable =>
            exact
              (pageNode_last_ne_child machine.memory (by omega) parent index
                table label child).elim
        | table above next names =>
            rw [nodes, names.pageNode above] at child
            cases child
            rw [← target_of_names names path.length]
            exact
              .child index (induction parentReached)
                (isPointer_of_names names above)
        | large directory ident =>
            subst directory
            rw [show ([0, 0] : List (Fin 512)).length = 2 from rfl, nodes,
              pageNode_of_identPde ident] at child
            cases child

end Entries

/-! ## The tree -/

/-- Any call of `map`. -/
structure AnyCall where
  addr : Vaddr
  phys : U64

/-- The call returned, and the allocator is not exhausted. -/
structure MapReturns (image : KernelImage) (before : Machine)
    (call : AnyCall) (after : Machine) : Prop where
  returns : map call.addr call.phys before = .ok () after
  room : HasRoom image after

/-- The tables of `boot.S`. -/
def BootTable (image : KernelImage) (path : List (Fin 512))
    (table : Nat) : Prop :=
  path = [] ∧ table = image.identPtL4 ∨
    path = [0] ∧ table = image.identPtL3 ∨
      path = [0, 0] ∧ table = image.identPtL2

/-- An entry of a table which is met, and which points to a table. -/
structure PointerEntry (machine : Machine) (path : List (Fin 512))
    (table : Nat) (index : Fin 512) (next : Nat) : Prop where
  met : Met machine path table
  pointer : IsPointer path.length (machine.memory (slotAddress table index))
  next_eq :
    target path.length (machine.memory (slotAddress table index)) = next

/--
The tables met in a state, `created` being those which `map` made.  The
allocator has given one frame for each of them: its pointer has moved by as
many pages, and `alloc_page` returns these frames one after the other.
-/
structure TreeOfTables (image : KernelImage) (rest : Memory)
    (machine : Machine) (created : List NewTable) : Prop where
  pointsToTable :
    ∀ {path table index next},
      PointerEntry machine path table index next →
        NamesTable (machine.memory (slotAddress table index)) next ∧
          4096 ∣ next ∧ Met machine (path ++ [index]) next
  notRoot :
    ∀ {path table index next},
      PointerEntry machine path table index next → next ≠ machine.root
  unshared :
    ∀ {path table index otherPath otherTable otherIndex next},
      PointerEntry machine path table index next →
        PointerEntry machine otherPath otherTable otherIndex next →
          path = otherPath ∧ table = otherTable ∧ index = otherIndex
  met_iff :
    ∀ path table,
      Met machine path table ↔
        BootTable image path table ∨ ⟨path, table⟩ ∈ created
  returned :
    ∃ after,
      allocPages created.length (Machine.boot image rest) =
        .ok (created.map fun new => BitVec.ofNat 64 new.frame) after
  calls :
    machine.allocationAddr = 1024 * 1024 * 10 - 4096 * created.length
  once : (created.map NewTable.frame).Nodup
  offImage : ∀ new ∈ created, image.edata ≤ new.frame

section Tree

variable
    {image : KernelImage} {rest : Memory} {calls : List AnyCall}
    {machine : Machine}

/-- The tables of a run are those of the boot code and those that were created.
-/
theorem grows_of_run
    (run :
      Run (MapReturns image) (Machine.boot image rest) calls machine) :
    ∃ created,
      Grows image (Machine.boot image rest) machine created ∧
        (created = [] ∨ HasRoom image machine) := by
  refine
    run.invariant
      (fun machine =>
        ∃ created,
          Grows image (Machine.boot image rest) machine created ∧
            (created = [] ∨ HasRoom image machine))
      ⟨[], .refl (pageTables_boot image rest), Or.inl rfl⟩ ?_
  rintro call before after ⟨created, grows, -⟩ step
  rcases map_grows grows.tables step.returns step.room with ⟨more, later⟩
  exact ⟨_, grows.trans later, Or.inr step.room⟩

/-- The frames given fit between the image and 10 MiB. -/
theorem Grows.fits
    {created : List NewTable}
    (grows : Grows image (Machine.boot image rest) machine created)
    (room : created = [] ∨ HasRoom image machine) :
    created = [] ∨ image.edata + 4096 * created.length ≤ 1024 * 1024 * 10 := by
  refine room.imp_right fun room => ?_
  have taken := grows.taken
  have top : (Machine.boot image rest).allocationAddr = 1024 * 1024 * 10 := rfl
  rw [HasRoom] at room
  omega

/-- A created table is where the allocator's pointer has been. -/
theorem Grows.frame_located
    {created : List NewTable}
    (grows : Grows image (Machine.boot image rest) machine created)
    (fits : image.edata + 4096 * created.length ≤ 1024 * 1024 * 10)
    {new : NewTable} (member : new ∈ created) :
    ∃ i < created.length,
      (new.frame : Int) = 1024 * 1024 * 10 - 4096 * (i + 1) := by
  have reached := (grows.met_iff new.path new.frame).2 (Or.inr member)
  have below := (grows.tables.placed reached).below
  have given :
      BitVec.ofNat 64 new.frame ∈
        framesBelow (1024 * 1024 * 10) created.length :=
    grows.frames ▸ List.mem_map_of_mem member
  rcases mem_framesBelow.1 given with ⟨i, inside, same⟩
  have position :
      ((BitVec.ofInt 64 (1024 * 1024 * 10 - 4096 * (i + 1))).toNat : Int) =
        1024 * 1024 * 10 - 4096 * (i + 1) :=
    toNat_frame (by omega) (by omega)
  refine ⟨i, inside, ?_⟩
  rw [← same, BitVec.toNat_ofNat] at position
  omega

/-- The tables that were created have frames of their own. -/
theorem Grows.frames_nodup
    {created : List NewTable}
    (grows : Grows image (Machine.boot image rest) machine created)
    (fits : image.edata + 4096 * created.length ≤ 1024 * 1024 * 10) :
    (created.map NewTable.frame).Nodup := by
  have distinct : (framesBelow (1024 * 1024 * 10) created.length).Nodup :=
    framesBelow_nodup (by omega) (by decide)
  have given :
      (created.map NewTable.frame).map (BitVec.ofNat 64) =
        framesBelow (1024 * 1024 * 10) created.length := by
    rw [List.map_map]
    exact grows.frames
  rw [← given] at distinct
  exact distinct.of_map

/-- Under the invariant an entry which points to a table is met by the walk. -/
theorem PointerEntry.child_reached
    (tables : PageTables image machine)
    {path : List (Fin 512)} {table : Nat} {index : Fin 512} {next : Nat}
    (entry : PointerEntry machine path table index next) :
    tableOf machine (path ++ [index]) = some next := by
  rcases entry with ⟨met, pointer, rfl⟩
  exact (met_iff_tableOf tables).1 (.child index met pointer)

/--
In every state reached by calls of `map` which returned, the page tables are
a tree made of the boot tables and of frames which `alloc_page` gave once.
-/
theorem page_tables_stay_tree
    (run :
      Run (MapReturns image) (Machine.boot image rest) calls machine) :
    ∃ created, TreeOfTables image rest machine created := by
  rcases grows_of_run run with ⟨created, grows, room⟩
  have tables := grows.tables
  have fits := grows.fits room
  refine
    ⟨created,
      { pointsToTable := ?_
        notRoot := ?_
        unshared := ?_
        met_iff := ?_
        returned := ?_
        calls := grows.taken
        once := ?_
        offImage := ?_ }⟩
  · intro path table index next entry
    have reached := entry.child_reached tables
    rcases entry with ⟨met, pointer, rfl⟩
    exact
      ⟨names_of_isPointer tables ((met_iff_tableOf tables).1 met) pointer,
        (tables.placed reached).aligned, .child index met pointer⟩
  · rintro path table index next entry rfl
    have samePath :=
      tables.tree (entry.child_reached tables)
        (show tableOf machine [] = some machine.root from rfl)
    simp at samePath
  · intro path table index otherPath otherTable otherIndex next entry other
    have samePath :=
      tables.tree (entry.child_reached tables) (other.child_reached tables)
    rcases List.append_inj' samePath rfl with ⟨rfl, sameIndex⟩
    have sameTable :=
      ((met_iff_tableOf tables).1 entry.met).symm.trans
        ((met_iff_tableOf tables).1 other.met)
    exact ⟨rfl, Option.some.inj sameTable, List.singleton_inj.1 sameIndex⟩
  · intro path table
    rw [met_iff_tableOf tables, grows.met_iff, tableOf_boot_iff]
    rfl
  · rcases allocPages_run created.length (Machine.boot image rest) with
      ⟨after, returns⟩
    rw [← grows.frames] at returns
    exact ⟨after, returns⟩
  · rcases fits with rfl | fits
    · exact List.nodup_nil
    · exact grows.frames_nodup fits
  · intro new member
    rcases fits with rfl | fits
    · cases member
    · rcases grows.frame_located fits member with ⟨i, inside, position⟩
      omega

/-- The tables after the call for the page of the local APIC. -/
theorem page_tables_stay_tree_apic :
    ∃ after created,
      MapReturns smallImage smallBoot
          ⟨Vaddr.ofU64 0xfee00000, 0xfee00000⟩ after ∧
        TreeOfTables smallImage (fun _ => 0) after created := by
  rcases
      smallBoot_step 0xfee00000 0xfee00000 (by decide) (by decide)
        (by decide) with
    ⟨after, step⟩
  have returned :
      MapReturns smallImage smallBoot
        ⟨Vaddr.ofU64 0xfee00000, 0xfee00000⟩ after :=
    ⟨step.returns, step.room⟩
  rcases page_tables_stay_tree (.step .start returned) with ⟨created, tree⟩
  exact ⟨after, created, returned, tree⟩

end Tree

end NopOS.Mmu.TableTree
