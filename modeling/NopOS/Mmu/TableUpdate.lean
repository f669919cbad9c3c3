import NopOS.Mmu.TableInvariant

/-!
# The two changes made to the page tables

The mapper changes the tables in two ways only: it makes an entry name a
frame just taken from the allocator, and it assigns an entry of a page table.
Both preserve the invariant.  The first changes no walk if the entry was
absent and the frame is empty; the second changes the walks of one page.
-/

namespace NopOS.Mmu.TableUpdate

open NopOS.Lib.RadixTree
open NopOS.Mmu.PageTableEntry
open NopOS.Mmu.AddressTranslation
open NopOS.Mmu.PhysicalMachine
open NopOS.Mmu.TableInvariant

/-! ## Linking a frame -/

/-- Slot `index` of `table` now names the frame the allocator just gave. -/
structure LinksFrame (image : KernelImage) (before after : Machine)
    (table : Nat) (index : Fin 512) (frame : Nat) : Prop where
  sameCr3 : after.cr3 = before.cr3
  takesFrame : after.allocationAddr = before.allocationAddr - 4096
  frame_eq : (frame : Int) = after.allocationAddr
  room : (image.edata : Int) ≤ after.allocationAddr
  names : NamesTable (after.memory (slotAddress table index)) frame
  elsewhere :
    ∀ address,
      address ≠ slotAddress table index →
        ¬ (frame ≤ address ∧ address < frame + 4096) →
          after.memory address = before.memory address

namespace LinksFrame

variable
    {image : KernelImage} {before after : Machine}
    {path : List (Fin 512)} {table : Nat} {index : Fin 512} {frame : Nat}

theorem sameRoot
    (links : LinksFrame image before after table index frame) :
    after.root = before.root := by
  rw [Machine.root, Machine.root, links.sameCr3]

theorem frame_aligned
    (links : LinksFrame image before after table index frame)
    (tables : PageTables image before) :
    4096 ∣ frame := by
  have aligned := tables.allocator_aligned
  have frameEq := links.frame_eq
  have takes := links.takesFrame
  omega

/-- The frame is none of the tables in use. -/
theorem unmet
    (links : LinksFrame image before after table index frame)
    (tables : PageTables image before)
    (other : List (Fin 512)) :
    tableOf before other ≠ some frame := by
  intro met
  have apart := (tables.placed met).apart
  have frameEq := links.frame_eq
  have takes := links.takesFrame
  have room := links.room
  omega

/-- The frame satisfies the placement conditions. -/
theorem frame_placed
    (links : LinksFrame image before after table index frame)
    (tables : PageTables image before) :
    Placed image after frame where
  aligned := links.frame_aligned tables
  above := by
    have above := image.above
    have inside := image.inside
    have frameEq := links.frame_eq
    have room := links.room
    omega
  below := by
    have upper := tables.allocator_le
    have frameEq := links.frame_eq
    have takes := links.takesFrame
    omega
  apart := by
    have frameEq := links.frame_eq
    omega

/-- The slots of the other tables stay. -/
theorem slot_eq
    (links : LinksFrame image before after table index frame)
    (tables : PageTables image before)
    (reached : tableOf before path = some table)
    {met : List (Fin 512)} {metTable : Nat} {metIndex : Fin 512}
    (metReached : tableOf before met = some metTable)
    (different : metTable ≠ table ∨ metIndex ≠ index) :
    after.memory (slotAddress metTable metIndex) =
      before.memory (slotAddress metTable metIndex) := by
  have metAligned := (tables.placed metReached).aligned
  apply links.elsewhere
  · rw [Ne, slotAddress_inj metAligned (tables.placed reached).aligned]
    tauto
  · rw [slotAddress_in_page_iff metAligned (links.frame_aligned tables)]
    rintro rfl
    exact links.unmet tables met metReached

/-- The radix tree sees a fresh table being linked. -/
theorem linksTable
    (links : LinksFrame image before after table index frame)
    (tables : PageTables image before)
    (reached : tableOf before path = some table)
    (above : path.length < 3)
    (noChild :
      ∀ next label, nodes before path.length table index ≠ .child next label)
    (childless :
      ∀ frameIndex next label,
        nodes after (path.length + 1) frame frameIndex ≠ .child next label) :
    LinksTable (nodes before) (nodes after) before.root path table index
      frame true where
  reached := reached
  agree := fun metReached different =>
    pageNode_congr (links.slot_eq tables reached metReached different)
  noChild := noChild
  linked := links.names.pageNode above
  unmet := links.unmet tables
  childless := childless

/-- The tables afterwards are those before and the frame. -/
theorem tableOf_iff
    (links : LinksFrame image before after table index frame)
    (tables : PageTables image before)
    (change :
      LinksTable (nodes before) (nodes after) before.root path table index
        frame true)
    (other : List (Fin 512)) (met : Nat) :
    tableOf after other = some met ↔
      tableOf before other = some met ∨
        (other = path ++ [index] ∧ met = frame) := by
  rw [tableOf, links.sameRoot]
  exact change.tableAt_iff tables.tree other met

/-- The allocator moved below every table which was already in use. -/
theorem placed_after
    (links : LinksFrame image before after table index frame)
    {met : Nat} (placed : Placed image before met) :
    Placed image after met where
  aligned := placed.aligned
  above := placed.above
  below := placed.below
  apart := by
    have apart := placed.apart
    have takes := links.takesFrame
    omega

theorem largeSlot_eq
    (links : LinksFrame image before after table index frame)
    (tables : PageTables image before)
    (reached : tableOf before path = some table)
    (keepsLarge : table = image.identPtL2 → index = 0)
    {other : Fin 512} (notChanged : other ≠ 0 ∨ table ≠ image.identPtL2) :
    after.memory (slotAddress image.identPtL2 other) =
      before.memory (slotAddress image.identPtL2 other) := by
  apply links.slot_eq tables reached tables.directory
  by_contra same
  simp only [not_or, not_not] at same
  rcases same with ⟨rfl, rfl⟩
  rcases notChanged with notFirst | different
  · exact notFirst (keepsLarge rfl)
  · exact different rfl

/-- Every entry keeps a shape that page tables allow. -/
theorem shape_after
    (links : LinksFrame image before after table index frame)
    (tables : PageTables image before)
    (reached : tableOf before path = some table)
    (above : path.length < 3)
    {other : List (Fin 512)} {met : Nat} (metIndex : Fin 512)
    (metBefore : tableOf before other = some met) :
    EntryShape other metIndex (after.memory (slotAddress met metIndex)) := by
  by_cases same : met = table ∧ metIndex = index
  · rcases same with ⟨rfl, rfl⟩
    have samePath : other = path := tables.tree metBefore reached
    subst other
    exact .table above frame links.names
  · rw [links.slot_eq tables reached metBefore (by tauto)]
    exact tables.shape metIndex metBefore

/-- Linking a frame with well-shaped contents preserves the invariant. -/
theorem preserves
    (links : LinksFrame image before after table index frame)
    (tables : PageTables image before)
    (reached : tableOf before path = some table)
    (above : path.length < 3)
    (noChild :
      ∀ next label, nodes before path.length table index ≠ .child next label)
    (childless :
      ∀ frameIndex next label,
        nodes after (path.length + 1) frame frameIndex ≠ .child next label)
    (contents :
      ∀ frameIndex,
        EntryShape (path ++ [index]) frameIndex
          (after.memory (slotAddress frame frameIndex)))
    (keepsLarge : table = image.identPtL2 → index = 0) :
    PageTables image after := by
  have change :=
    links.linksTable tables reached above noChild childless
  have met_iff := links.tableOf_iff tables change
  refine
    { root_eq := links.sameRoot.trans tables.root_eq
      tree := ?_
      placed := ?_
      shape := ?_
      directory := (met_iff _ _).2 (Or.inl tables.directory)
      largePages := ?_
      firstPage := ?_
      allocator_aligned := ?_
      allocator_le := ?_ }
  · rw [links.sameRoot]
    exact change.isTree tables.tree
  · intro other met metReached
    rcases (met_iff other met).1 metReached with metBefore | ⟨rfl, rfl⟩
    · exact links.placed_after (tables.placed metBefore)
    · exact links.frame_placed tables
  · intro other met metIndex metReached
    rcases (met_iff other met).1 metReached with metBefore | ⟨rfl, rfl⟩
    · exact links.shape_after tables reached above metIndex metBefore
    · exact contents metIndex
  · intro other notFirst
    rw [links.largeSlot_eq tables reached keepsLarge (Or.inl notFirst)]
    exact tables.largePages other notFirst
  · by_cases changed : table = image.identPtL2
    · have first := keepsLarge changed
      subst changed first
      exact Or.inr ⟨frame, links.names⟩
    · rw [links.largeSlot_eq tables reached keepsLarge (Or.inr changed)]
      exact tables.firstPage
  · have aligned := tables.allocator_aligned
    have takes := links.takesFrame
    omega
  · have upper := tables.allocator_le
    have takes := links.takesFrame
    omega

/-- Linking an empty frame under an absent entry changes no walk. -/
theorem walk_eq
    (links : LinksFrame image before after table index frame)
    (tables : PageTables image before)
    (reached : tableOf before path = some table)
    (above : path.length < 3)
    (absent : nodes before path.length table index = .absent)
    (empty :
      ∀ frameIndex, after.memory (slotAddress frame frameIndex) = 0)
    (address : U64) :
    after.walk address = before.walk address := by
  have emptyNodes :
      ∀ frameIndex,
        nodes after (path.length + 1) frame frameIndex = .absent :=
    fun frameIndex => pageNode_of_zero (empty frameIndex)
  have change :=
    links.linksTable tables reached above
      (by simp [absent]) (by simp [emptyNodes])
  apply PageTables.walk_congr links.sameRoot
  rw [links.sameRoot]
  exact change.lookup_eq tables.tree absent emptyNodes _

end LinksFrame

/-! ## Assigning a page-table entry -/

/-- Only slot `index` of `table` differs, and it maps a writable page. -/
structure AssignsPage (before after : Machine)
    (table : Nat) (index : Fin 512) (entry : U64) : Prop where
  sameCr3 : after.cr3 = before.cr3
  sameAllocator : after.allocationAddr = before.allocationAddr
  memory_eq :
    after.memory =
      Function.update before.memory (slotAddress table index) entry
  present : entry.getLsbD 0 = true
  writable : entry.getLsbD 1 = true

namespace AssignsPage

variable
    {image : KernelImage} {before after : Machine}
    {path : List (Fin 512)} {table : Nat} {index : Fin 512} {entry : U64}

theorem sameRoot (assigns : AssignsPage before after table index entry) :
    after.root = before.root := by
  rw [Machine.root, Machine.root, assigns.sameCr3]

theorem slot_eq
    (assigns : AssignsPage before after table index entry)
    (tables : PageTables image before)
    (reached : tableOf before path = some table)
    {met : List (Fin 512)} {metTable : Nat} {metIndex : Fin 512}
    (metReached : tableOf before met = some metTable)
    (different : metTable ≠ table ∨ metIndex ≠ index) :
    after.memory (slotAddress metTable metIndex) =
      before.memory (slotAddress metTable metIndex) := by
  rw [assigns.memory_eq]
  apply Function.update_of_ne
  rw [Ne, slotAddress_inj (tables.placed metReached).aligned
    (tables.placed reached).aligned]
  tauto

theorem replacesLeaf
    (assigns : AssignsPage before after table index entry)
    (tables : PageTables image before)
    (reached : tableOf before path = some table)
    (last : path.length = 3) :
    ReplacesLeaf (nodes before) (nodes after) before.root path table index
    where
  reached := reached
  agree := fun metReached different =>
    pageNode_congr (assigns.slot_eq tables reached metReached different)
  noChild := pageNode_last_ne_child before.memory (by omega) table index
  noChildAfter := pageNode_last_ne_child after.memory (by omega) table index

/-- A page that is assigned moves no table. -/
theorem tableOf_eq
    (assigns : AssignsPage before after table index entry)
    (tables : PageTables image before)
    (reached : tableOf before path = some table)
    (last : path.length = 3) (other : List (Fin 512)) :
    tableOf after other = tableOf before other := by
  rw [tableOf, assigns.sameRoot]
  exact
    (assigns.replacesLeaf tables reached last).tableAt_eq tables.tree other

/-- A page that is assigned leaves page tables. -/
theorem preserves
    (assigns : AssignsPage before after table index entry)
    (tables : PageTables image before)
    (reached : tableOf before path = some table)
    (last : path.length = 3) :
    PageTables image after := by
  have sameTables := assigns.tableOf_eq tables reached last
  have notDirectory : image.identPtL2 ≠ table := by
    rintro rfl
    have samePath := tables.tree tables.directory reached
    subst path
    simp at last
  have largeSlot :
      ∀ other : Fin 512,
        after.memory (slotAddress image.identPtL2 other) =
          before.memory (slotAddress image.identPtL2 other) :=
    fun other =>
      assigns.slot_eq tables reached tables.directory (Or.inl notDirectory)
  refine
    { root_eq := assigns.sameRoot.trans tables.root_eq
      tree := ?_
      placed := ?_
      shape := ?_
      directory := ?_
      largePages := ?_
      firstPage := ?_
      allocator_aligned := ?_
      allocator_le := ?_ }
  · rw [assigns.sameRoot]
    exact (assigns.replacesLeaf tables reached last).isTree tables.tree
  · intro other met metReached
    rw [sameTables] at metReached
    have placed := tables.placed metReached
    exact
      { aligned := placed.aligned
        above := placed.above
        below := placed.below
        apart := by
          rw [assigns.sameAllocator]
          exact placed.apart }
  · intro other met metIndex metReached
    rw [sameTables] at metReached
    by_cases same : met = table ∧ metIndex = index
    · rcases same with ⟨rfl, rfl⟩
      have samePath : other = path := tables.tree metReached reached
      subst other
      rw [assigns.memory_eq, Function.update_self]
      exact .page last assigns.present assigns.writable
    · rw [assigns.slot_eq tables reached metReached (by tauto)]
      exact tables.shape metIndex metReached
  · rw [sameTables]
    exact tables.directory
  · intro other notFirst
    rw [largeSlot]
    exact tables.largePages other notFirst
  · rw [largeSlot]
    exact tables.firstPage
  · rw [assigns.sameAllocator]
    exact tables.allocator_aligned
  · rw [assigns.sameAllocator]
    exact tables.allocator_le

/-- The page of the assigned entry is mapped as the entry says. -/
theorem walk_self
    (assigns : AssignsPage before after table index entry)
    (tables : PageTables image before)
    (reached : tableOf before path = some table)
    (last : path.length = 3)
    {address : U64} (canonical : Canonical address)
    (key : walkKey address = path ++ [index]) :
    after.walk address =
      some
        { phys := frameBase 12 entry + address.toNat % 2 ^ 12
          writable := true } := by
  have assigned : after.memory (slotAddress table index) = entry := by
    rw [assigns.memory_eq, Function.update_self]
  have leaf : nodes after path.length table index = .leaf entry := by
    rw [last, nodes, pageNode_of_present_last (by
      rw [assigned]
      exact assigns.present), assigned]
  have reachedAfter : tableOf after path = some table := by
    rw [assigns.tableOf_eq tables reached last]
    exact reached
  rw [(assigns.preserves tables reached last).walk_of_leaf canonical
    reachedAfter leaf key, assigns.writable]
  rfl

/-- Every other page keeps its translation. -/
theorem walk_other
    (assigns : AssignsPage before after table index entry)
    (tables : PageTables image before)
    (reached : tableOf before path = some table)
    (last : path.length = 3)
    {address : U64} (otherKey : walkKey address ≠ path ++ [index]) :
    after.walk address = before.walk address := by
  apply PageTables.walk_congr assigns.sameRoot
  rw [assigns.sameRoot]
  apply
    (assigns.replacesLeaf tables reached last).toChangesSlot.lookup_of_not_through
      tables.tree
  intro through
  apply otherKey
  have lengths : (path ++ [index]).length = (walkKey address).length := by
    simp [last, walkKey]
  exact (through.eq_of_length lengths).symm

end AssignsPage

end NopOS.Mmu.TableUpdate
