import NopOS.Lib.LabelledRun
import NopOS.Mmu.MapRefinement
import NopOS.Mmu.MappedCheck

/-!
# Runs of the mapper from the boot page tables

A run is a sequence of calls of `map` which all return, while the allocator
stays above the kernel image: below it `alloc_page` clears the code that is
running.  Every state of a run satisfies the invariant, and its history tells
whether the first 2 MiB page has been split.
-/

namespace NopOS.Mmu.MapRuns

open NopOS.Lib.RadixTree
open NopOS.Lib.StatefulProgram
open NopOS.Lib.LabelledRun
open NopOS.Mmu.PageTableEntry
open NopOS.Mmu.AddressTranslation
open NopOS.Mmu.PhysicalMachine
open NopOS.Mmu.Mapper
open NopOS.Mmu.TableInvariant
open NopOS.Mmu.MapperSpecs
open NopOS.Mmu.MapRefinement
open NopOS.Mmu.MappedCheck

/-! ## The boot tables satisfy the invariant -/

/-- The entry `table + 0x67` of `boot.S`. -/
theorem namesTable_of_boot
    {table : Nat} (aligned : 4096 ∣ table) (physical : table < 2 ^ 52) :
    NamesTable (BitVec.ofNat 64 (table + 0x67)) table where
  present := by
    simp only [BitVec.getLsbD_ofNat, Nat.testBit_eq_decide_div_mod_eq]
    simp
    omega
  writable := by
    simp only [BitVec.getLsbD_ofNat, Nat.testBit_eq_decide_div_mod_eq]
    simp
    omega
  notLarge := by
    simp only [BitVec.getLsbD_ofNat, Nat.testBit_eq_decide_div_mod_eq]
    simp
    omega
  frame := by
    simp only [frameBase, BitVec.toNat_ofNat]
    omega

section Boot

variable (image : KernelImage) (rest : Memory)

theorem image_physical :
    image.identPtL3 < 2 ^ 52 ∧ image.identPtL2 < 2 ^ 52 := by
  have inside := image.inside
  have below := image.below
  simp only [KernelImage.identPtL2, KernelImage.identPtL3]
  omega

theorem boot_l4_names :
    NamesTable
      ((Machine.boot image rest).memory (slotAddress image.identPtL4 0))
      image.identPtL3 := by
  simp only [Machine.boot, bootMemory_l4, if_true]
  exact namesTable_of_boot image.aligned_l3 (image_physical image).1

theorem boot_l3_names :
    NamesTable
      ((Machine.boot image rest).memory (slotAddress image.identPtL3 0))
      image.identPtL2 := by
  simp only [Machine.boot, bootMemory_l3, if_true]
  exact namesTable_of_boot image.aligned_l2 (image_physical image).2

theorem boot_l4_zero {index : Fin 512} (notFirst : index ≠ 0) :
    (Machine.boot image rest).memory (slotAddress image.identPtL4 index) =
      0 := by
  simp only [Machine.boot, bootMemory_l4, if_neg notFirst]

theorem boot_l3_zero {index : Fin 512} (notFirst : index ≠ 0) :
    (Machine.boot image rest).memory (slotAddress image.identPtL3 index) =
      0 := by
  simp only [Machine.boot, bootMemory_l3, if_neg notFirst]

theorem boot_l2 (index : Fin 512) :
    (Machine.boot image rest).memory (slotAddress image.identPtL2 index) =
      identPde index :=
  bootMemory_l2 image rest index

/-- The root table has one entry. -/
theorem node_boot_l4 (index : Fin 512) :
    nodes (Machine.boot image rest) 0 image.identPtL4 index =
      if index = 0 then .child image.identPtL3 true else .absent := by
  by_cases first : index = 0
  · subst index
    exact (boot_l4_names image rest).pageNode (by decide)
  · rw [if_neg first]
    exact pageNode_of_zero (boot_l4_zero image rest first)

/-- The directory pointer table has one entry. -/
theorem node_boot_l3 (index : Fin 512) :
    nodes (Machine.boot image rest) 1 image.identPtL3 index =
      if index = 0 then .child image.identPtL2 true else .absent := by
  by_cases first : index = 0
  · subst index
    exact (boot_l3_names image rest).pageNode (by decide)
  · rw [if_neg first]
    exact pageNode_of_zero (boot_l3_zero image rest first)

/-- The directory has 512 large pages. -/
theorem node_boot_l2 (index : Fin 512) :
    nodes (Machine.boot image rest) 2 image.identPtL2 index =
      .leaf (identPde index) :=
  pageNode_of_identPde (boot_l2 image rest index)

/-- The three boot tables are the only ones. -/
theorem tableOf_boot_iff (path : List (Fin 512)) (table : Nat) :
    tableOf (Machine.boot image rest) path = some table ↔
      path = [] ∧ table = image.identPtL4 ∨
        path = [0] ∧ table = image.identPtL3 ∨
          path = [0, 0] ∧ table = image.identPtL2 := by
  rw [tableOf, root_boot]
  rcases path with _ | ⟨first, path⟩
  · simp only [tableFrom, Option.some.injEq, true_and, reduceCtorEq,
      false_and, or_false]
    exact eq_comm
  by_cases firstZero : first = 0
  · subst first
    rcases path with _ | ⟨second, path⟩
    · simp only [tableFrom, node_boot_l4, if_true]
      simp
      exact eq_comm
    by_cases secondZero : second = 0
    · subst second
      rcases path with _ | ⟨third, path⟩
      · simp only [tableFrom, node_boot_l4, Nat.zero_add, node_boot_l3,
          if_true]
        simp
        exact eq_comm
      · simp only [tableFrom, node_boot_l4, Nat.zero_add, node_boot_l3,
          Nat.reduceAdd, node_boot_l2, if_true]
        simp
    · simp only [tableFrom, node_boot_l4, Nat.zero_add, node_boot_l3,
        if_true, if_neg secondZero]
      simp [secondZero]
  · simp only [tableFrom, node_boot_l4, if_neg firstZero]
    simp [firstZero]

/-- The boot tables are page tables. -/
theorem pageTables_boot : PageTables image (Machine.boot image rest) := by
  have inside := image.inside
  have below := image.below
  have above := image.above
  refine
    { root_eq := root_boot image rest
      tree := ?_
      placed := ?_
      shape := ?_
      directory := (tableOf_boot_iff image rest _ _).2 (by simp)
      largePages := fun index _ => boot_l2 image rest index
      firstPage := Or.inl (boot_l2 image rest 0)
      allocator_aligned := by
        simp only [Machine.boot]
        omega
      allocator_le := le_refl _ }
  · intro first second table firstReached secondReached
    rw [tableOf_boot_iff] at firstReached secondReached
    simp only [KernelImage.identPtL2, KernelImage.identPtL3] at *
    rcases firstReached with ⟨rfl, rfl⟩ | ⟨rfl, rfl⟩ | ⟨rfl, rfl⟩ <;>
      rcases secondReached with ⟨rfl, same⟩ | ⟨rfl, same⟩ | ⟨rfl, same⟩ <;>
        first | rfl | omega
  · intro path table reached
    have aligned := image.aligned
    rw [tableOf_boot_iff] at reached
    simp only [KernelImage.identPtL2, KernelImage.identPtL3] at *
    refine
      { aligned := ?_
        above := ?_
        below := ?_
        apart := Or.inl ?_ } <;>
      omega
  · intro path table index reached
    rw [tableOf_boot_iff] at reached
    rcases reached with ⟨rfl, rfl⟩ | ⟨rfl, rfl⟩ | ⟨rfl, rfl⟩
    · by_cases first : index = 0
      · subst index
        exact .table (by simp) _ (boot_l4_names image rest)
      · exact .empty (boot_l4_zero image rest first)
    · by_cases first : index = 0
      · subst index
        exact .table (by simp) _ (boot_l3_names image rest)
      · exact .empty (boot_l3_zero image rest first)
    · exact .large rfl (boot_l2 image rest index)

/-- And none of their pages is split. -/
theorem not_firstSplit_boot :
    ¬ FirstSplit image (Machine.boot image rest) := by
  rw [FirstSplit, boot_l2, identPde_large]
  simp

/-- The boot tables map the first GiB to itself. -/
theorem walk_boot_inside
    {address : U64} (inFirst : address.toNat < 2 ^ 30) :
    (Machine.boot image rest).walk address =
      some { phys := address.toNat, writable := true } :=
  walk_of_identPde (pageTables_boot image rest) inFirst
    (boot_l2 image rest _)

/-- They map nothing else. -/
theorem walk_boot_outside
    {address : U64} (outside : 2 ^ 30 ≤ address.toNat) :
    (Machine.boot image rest).walk address = none := by
  by_cases canonical : Canonical address
  · have key := walkKey_eq_vaddr address
    have notFirst := mt (inDirectory_iff canonical).1 (by omega)
    have rootReached :
        tableOf (Machine.boot image rest) [] = some image.identPtL4 :=
      (tableOf_boot_iff image rest _ _).2 (by simp)
    have l3Reached :
        tableOf (Machine.boot image rest) [0] = some image.identPtL3 :=
      (tableOf_boot_iff image rest _ _).2 (by simp)
    by_cases first : (Vaddr.ofU64 address).PML4 = 0
    · have second : (Vaddr.ofU64 address).directoryPtr ≠ 0 := by
        intro both
        exact notFirst (by rw [first, both])
      rw [first] at key
      exact
        PageTables.walk_of_absent l3Reached
          (pageNode_of_zero (boot_l3_zero image rest second)) key
    · exact
        PageTables.walk_of_absent rootReached
          (pageNode_of_zero (boot_l4_zero image rest first)) key
  · rw [Machine.walk, AddressTranslation.walk, if_neg canonical]

end Boot

/-! ## Runs -/

/-- Arguments of one call. -/
structure MapCall where
  v : U64
  p : U64

/-- The allocator is still above the kernel image. -/
def HasRoom (image : KernelImage) (machine : Machine) : Prop :=
  (image.edata : Int) ≤ machine.allocationAddr

/-- A call of `map` which returned. -/
structure MapStep (image : KernelImage) (before : Machine) (call : MapCall)
    (after : Machine) : Prop where
  canonical : Canonical call.v
  physical : call.p.toNat < 2 ^ 52
  returns : map (Vaddr.ofU64 call.v) call.p before = .ok () after
  room : HasRoom image after

/-- Runs of `map` calls from the tables that the boot code leaves. -/
abbrev MapRun (image : KernelImage) (rest : Memory) :=
  Run (MapStep image) (Machine.boot image rest)

section Runs

variable
    {image : KernelImage} {rest : Memory} {calls : List MapCall}
    {before after machine : Machine} {call : MapCall}

/-- A call of a run maps its page. -/
theorem MapStep.mapsPage
    (step : MapStep image before call after)
    (tables : PageTables image before) :
    MapsPage image before after call.v call.p := by
  have room :
      (image.edata : Int) ≤
        (finalState
          (map (Vaddr.ofU64 call.v) call.p before)).allocationAddr := by
    rw [step.returns]
    exact step.room
  by_cases large : InLargePages call.v
  · rcases map_fails tables step.canonical large room with ⟨failed, fails⟩
    rw [step.returns] at fails
    simp at fails
  · rcases map_returns tables step.canonical large room with
      ⟨other, returns, maps⟩
    rw [step.returns] at returns
    simp only [EStateM.Result.ok.injEq, true_and] at returns
    subst other
    exact maps

/-- The tables are page tables after every run. -/
theorem pageTables_of_run (run : MapRun image rest calls machine) :
    PageTables image machine :=
  run.invariant (PageTables image) (pageTables_boot image rest)
    fun _ _ _ tables step => (step.mapsPage tables).tables

/-- The first page is split by the first call for an address in it. -/
theorem firstSplit_of_run (run : MapRun image rest calls machine) :
    FirstSplit image machine ↔ ∃ call ∈ calls, call.v.toNat < 2 ^ 21 := by
  refine
    run.invariant_with_history
      (fun calls machine =>
        FirstSplit image machine ↔ ∃ call ∈ calls, call.v.toNat < 2 ^ 21)
      (by simp [not_firstSplit_boot]) ?_
  intro calls call before after earlier history step
  rw [(step.mapsPage (pageTables_of_run earlier)).firstSplit, history]
  simp only [List.mem_append, List.mem_singleton, or_and_right, exists_or,
    exists_eq_left]

/-- A call may take four pages and must leave the image alone. -/
theorem room_of_four_pages
    (room : (image.edata : Int) + 4 * 4096 ≤ machine.allocationAddr)
    (addr : Vaddr) (phys : U64) :
    (image.edata : Int) ≤
      (finalState (map addr phys machine)).allocationAddr := by
  have takes := map_takes addr phys machine
  omega

end Runs

/-! ## `map` as a point update -/

/-- A call changes the translation of one page, to a writable frame. -/
theorem map_refines_update
    {image : KernelImage} {rest : Memory} {calls : List MapCall}
    {before after : Machine} {call : MapCall}
    (run : MapRun image rest calls before)
    (step : MapStep image before call after) :
    (∀ address, SamePage address call.v →
        after.walk address =
          some
            { phys := call.p.toNat / 4096 * 4096 + address.toNat % 4096
              writable := true }) ∧
      ∀ address, ¬ SamePage address call.v →
        after.walk address = before.walk address := by
  have maps := step.mapsPage (pageTables_of_run run)
  refine ⟨?_, maps.elsewhere⟩
  intro address same
  rw [maps.onPage address same, Nat.mod_eq_of_lt step.physical]

/-- An image with its tables at 2 MiB + 64 KiB. -/
def smallImage : KernelImage where
  identPtL4 := 0x210000
  edata := 0x220000
  aligned := by decide
  above := by decide
  inside := by decide
  below := by decide

/-- The boot state of the small image, with the rest of memory clear. -/
abbrev smallBoot : Machine := Machine.boot smallImage fun _ => 0

/-- From the boot state every address off the large pages can be mapped. -/
theorem smallBoot_step
    (v p : U64) (canonical : Canonical v) (physical : p.toNat < 2 ^ 52)
    (notLarge : ¬ InLargePages v) :
    ∃ after, MapStep smallImage smallBoot ⟨v, p⟩ after := by
  have room :
      (smallImage.edata : Int) ≤
        (finalState (map (Vaddr.ofU64 v) p smallBoot)).allocationAddr :=
    room_of_four_pages (by decide) _ _
  rcases
      map_returns (pageTables_boot smallImage _) canonical notLarge room with
    ⟨after, returns, -⟩
  rw [returns] at room
  exact ⟨after, canonical, physical, returns, room⟩

/-- The first call maps the local APIC page to a frame at 4 KiB. -/
theorem map_refines_update_apic :
    ∃ after,
      MapStep smallImage smallBoot ⟨0xfee00000, 0x1000⟩ after ∧
        after.walk 0xfee00020 = some { phys := 0x1020, writable := true } ∧
        after.walk 0xfee01000 = smallBoot.walk 0xfee01000 := by
  rcases
      smallBoot_step 0xfee00000 0x1000 (by decide) (by decide)
        (by decide) with
    ⟨after, step⟩
  have update := map_refines_update .start step
  exact
    ⟨after, step, update.1 0xfee00020 (by decide),
      update.2 0xfee01000 (by decide)⟩

/-! ## Where `map` returns -/

/--
In a reachable state `map` returns, splitting the page that covers `v` where
it must, exactly for the addresses off the later pages of the boot directory:
it looks at, and splits, the first entry of the directory only.
-/
theorem map_returns_iff
    {image : KernelImage} {rest : Memory} {calls : List MapCall}
    {machine : Machine} {v p : U64}
    (run : MapRun image rest calls machine)
    (canonical : Canonical v)
    (room :
      HasRoom image (finalState (map (Vaddr.ofU64 v) p machine))) :
    (∃ after, map (Vaddr.ofU64 v) p machine = .ok () after) ↔
      ¬ (0x200000 ≤ v.toNat ∧ v.toNat < 0x40000000) := by
  have tables := pageTables_of_run run
  constructor
  · rintro ⟨after, returns⟩ large
    rcases map_fails tables canonical large room with ⟨failed, fails⟩
    rw [returns] at fails
    simp at fails
  · intro notLarge
    rcases map_returns tables canonical notLarge room with
      ⟨after, returns, -⟩
    exact ⟨after, returns⟩

/-- The page of the local APIC is mapped from the boot tables. -/
theorem map_returns_iff_apic :
    ∃ after,
      map (Vaddr.ofU64 0xfee00000) 0xfee00000 smallBoot = .ok () after := by
  have room :
      HasRoom smallImage
        (finalState
          (map (Vaddr.ofU64 0xfee00000) 0xfee00000 smallBoot)) :=
    room_of_four_pages (by decide) _ _
  exact (map_returns_iff .start (by decide) room).2 (by decide)

/-- The second 2 MiB page of the boot state cannot be remapped. -/
theorem map_fails_second_page :
    MapRun smallImage (fun _ => 0) [] smallBoot ∧
      Canonical 0x200000 ∧
        HasRoom smallImage
          (finalState (map (Vaddr.ofU64 0x200000) 0 smallBoot)) ∧
          ∃ after,
            map (Vaddr.ofU64 0x200000) 0 smallBoot =
              .error (.assertFailed "type() == pd_type::PD_PT") after := by
  have room :
      HasRoom smallImage
        (finalState (map (Vaddr.ofU64 0x200000) 0 smallBoot)) :=
    room_of_four_pages (by decide) _ _
  exact
    ⟨.start, by decide, room,
      map_fails (pageTables_boot smallImage _) (by decide) (by decide) room⟩

/-! ## Where `is_mappped` agrees with the walk -/

/--
In a reachable state `is_mappped` returns the walk's answer unless it is
asked about a later page of the boot directory after a call of `map` which
split the first.
-/
theorem isMappped_agrees_iff
    {image : KernelImage} {rest : Memory} {calls : List MapCall}
    {machine : Machine} {v : U64}
    (run : MapRun image rest calls machine)
    (canonical : Canonical v) :
    (∃ after,
        isMappped (Vaddr.ofU64 v) machine =
          .ok (machine.walk v).isSome after) ↔
      ¬ ((0x200000 ≤ v.toNat ∧ v.toNat < 0x40000000) ∧
          ∃ call ∈ calls, call.v.toNat < 0x200000) := by
  have history := firstSplit_of_run run
  rw [isMappped_spec (pageTables_of_run run) canonical]
  constructor
  · rintro ⟨after, agrees⟩ ⟨large, split⟩
    rw [if_pos ⟨large, history.2 split⟩] at agrees
    simp at agrees
  · intro notSplit
    rw [if_neg fun both => notSplit ⟨both.1, history.1 both.2⟩]
    exact ⟨machine, rfl⟩

/-- After the local APIC was mapped, it is found like the pages of the boot
directory. -/
theorem isMappped_agrees_iff_apic :
    ∃ after,
      MapRun smallImage (fun _ => 0) [⟨0xfee00000, 0x1000⟩] after ∧
        (∃ last, isMappped (Vaddr.ofU64 0xfee00020) after = .ok true last) ∧
          ∃ last,
            isMappped (Vaddr.ofU64 0x200000) after =
              .ok (after.walk 0x200000).isSome last := by
  rcases
      smallBoot_step 0xfee00000 0x1000 (by decide) (by decide)
        (by decide) with
    ⟨after, step⟩
  have maps := step.mapsPage (pageTables_boot smallImage _)
  have run : MapRun smallImage (fun _ => 0) [⟨0xfee00000, 0x1000⟩] after :=
    .step .start step
  have found := maps.onPage 0xfee00020 (by decide)
  have apic :=
    (isMappped_agrees_iff (v := 0xfee00020) run (by decide)).2 (by decide)
  rw [found] at apic
  exact
    ⟨after, run, apic,
      (isMappped_agrees_iff run (by decide)).2 (by decide)⟩

/-- After `map(0, 0)` the check fails on the second 2 MiB page. -/
theorem isMappped_fails_after_split :
    ∃ after,
      MapStep smallImage smallBoot ⟨0, 0⟩ after ∧
        after.walk 0x200000 =
          some { phys := 0x200000, writable := true } ∧
        isMappped (Vaddr.ofU64 0x200000) after =
          .error (.assertFailed "type() == pd_type::PD_PT") after := by
  rcases
      smallBoot_step 0 0 (by decide) (by decide) (by decide) with
    ⟨after, step⟩
  have maps := step.mapsPage (pageTables_boot smallImage _)
  have split : FirstSplit smallImage after :=
    maps.firstSplit.2 (Or.inr (by decide))
  refine ⟨after, step, walk_of_inLargePages maps.tables (by decide), ?_⟩
  rw [isMappped_spec maps.tables (by decide),
    if_pos ⟨by decide, split⟩]

end NopOS.Mmu.MapRuns
