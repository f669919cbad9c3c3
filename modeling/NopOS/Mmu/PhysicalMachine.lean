import NopOS.Lib.StatefulProgram
import NopOS.Mmu.AddressTranslation

/-!
# The machine the mapper runs on

The kernel image, the page tables `boot.S` builds in it, and the page
allocator of `memory.cc`.

The mapper reads and writes page tables through pointers equal to their
physical addresses, which `pagetable.hh` states as an assumption ("assuming
1:1 mapping").  The primitives below take such an address as a physical one.
`MapRefinement.identity_of_tables` later proves that in every reachable state
the translation of each of these addresses is the address itself.

The allocator's pointer is kept as the integer it descends through; the
pointer the code holds is its residue modulo `2 ^ 64`.
-/

namespace NopOS.Mmu.PhysicalMachine

open NopOS.Lib.StatefulProgram
open NopOS.Mmu.PageTableEntry
open NopOS.Mmu.AddressTranslation

/--
Where the linker placed the kernel: the three boot page tables are
consecutive pages of its data, and `.edata` ends it.
-/
structure KernelImage where
  identPtL4 : Nat
  edata : Nat
  aligned : 4096 ∣ identPtL4
  above : 0x200000 ≤ identPtL4
  inside : identPtL4 + 3 * 4096 ≤ edata
  below : edata ≤ 0x1800000

namespace KernelImage

/-- The boot directory pointer table follows the root table in the image. -/
def identPtL3 (image : KernelImage) : Nat := image.identPtL4 + 4096

/-- The boot page directory follows the directory pointer table. -/
def identPtL2 (image : KernelImage) : Nat := image.identPtL3 + 4096

end KernelImage

/-- The quad word `index` of `ident_pt_l2`: a present, writable 2 MiB page. -/
def identPde (index : Nat) : U64 :=
  BitVec.ofNat 64 (index * 2 ^ 21 + 0x1e7)

/--
Memory when `start64` is entered: the boot tables, and whatever the rest of
memory holds.
-/
def bootMemory (image : KernelImage) (rest : Memory) : Memory := fun address =>
  if image.identPtL4 ≤ address ∧ address < image.identPtL4 + 4096 then
    if address = image.identPtL4 then BitVec.ofNat 64 (image.identPtL3 + 0x67)
    else 0
  else if image.identPtL3 ≤ address ∧ address < image.identPtL3 + 4096 then
    if address = image.identPtL3 then BitVec.ofNat 64 (image.identPtL2 + 0x67)
    else 0
  else if image.identPtL2 ≤ address ∧ address < image.identPtL2 + 4096 then
    identPde ((address - image.identPtL2) / 8)
  else rest address

/-- What the mapper reads and changes. -/
structure Machine where
  cr3 : U64
  memory : Memory
  allocationAddr : Int

/-- Ways in which a call does not return. -/
inductive Fault where
  | assertFailed (expression : String)
  | pageFault (address : U64)
  | outOfFuel
deriving DecidableEq

/-- Computations that read and change the machine and may stop at a fault. -/
abbrev Exec := EStateM Fault Machine

namespace Machine

/-- The state `boot.S` leaves, with the initial `allocation_addr`. -/
def boot (image : KernelImage) (rest : Memory) : Machine where
  cr3 := BitVec.ofNat 64 image.identPtL4
  memory := bootMemory image rest
  allocationAddr := 1024 * 1024 * 10

/-- Physical address of the PML4. -/
def root (machine : Machine) : Nat := (cr3PML4ptr machine.cr3).toNat

/-- Translation of an address by the tables of a state. -/
def walk (machine : Machine) (address : U64) : Option Translation :=
  AddressTranslation.walk machine.memory machine.root address

end Machine

/-! ## Primitives -/

/-- Read a page-table entry. -/
def load (address : Nat) : Exec U64 := do
  return (← get).memory address

/-- Assign members of a page-table entry. -/
def update (address : Nat) (change : U64 → U64) : Exec Unit :=
  modify fun machine =>
    { machine with
      memory :=
        Function.update machine.memory address
          (change (machine.memory address)) }

/-- `memset(page, 0, 4096)`. -/
def clearPage (page : Nat) (memory : Memory) : Memory := fun address =>
  if page ≤ address ∧ address < page + 4096 then 0 else memory address

/-- `memory::alloc_page()`. -/
def allocPage : Exec U64 := do
  modify fun machine =>
    { machine with allocationAddr := machine.allocationAddr - 4096 }
  let page := BitVec.ofInt 64 (← get).allocationAddr
  modify fun machine =>
    { machine with memory := clearPage page.toNat machine.memory }
  return page

/-- A load by the processor through the page tables; its value is unused. -/
def touch (address : U64) : Exec Unit := do
  if ((← get).walk address).isNone then
    throw (.pageFault address)

/-- `assert(condition)`. -/
def assertThat (condition : Prop) [Decidable condition]
    (expression : String) : Exec Unit :=
  if condition then pure () else throw (.assertFailed expression)

@[simp]
theorem load_run (address : Nat) (machine : Machine) :
    load address machine = .ok (machine.memory address) machine := rfl

@[simp]
theorem update_run
    (address : Nat) (change : U64 → U64) (machine : Machine) :
    update address change machine =
      .ok () { machine with
        memory :=
          Function.update machine.memory address
            (change (machine.memory address)) } := rfl

/-- `allocPage` returns the page below the last one, cleared. -/
@[simp]
theorem allocPage_run (machine : Machine) :
    allocPage machine =
      .ok (BitVec.ofInt 64 (machine.allocationAddr - 4096))
        { machine with
          allocationAddr := machine.allocationAddr - 4096
          memory :=
            clearPage
              (BitVec.ofInt 64 (machine.allocationAddr - 4096)).toNat
              machine.memory } := rfl

/-- An address with a translation can be touched. -/
theorem touch_run_of_some
    {address : U64} {machine : Machine} {found : Translation}
    (translated : machine.walk address = some found) :
    touch address machine = .ok () machine := by
  rw [touch, bind_of_ok (get_run machine), translated]
  rfl

theorem assertThat_run_of_true
    {condition : Prop} [Decidable condition] (holds : condition)
    (expression : String) (machine : Machine) :
    assertThat condition expression machine = .ok () machine := by
  simp [assertThat, holds]

theorem assertThat_run_of_false
    {condition : Prop} [Decidable condition] (fails : ¬ condition)
    (expression : String) (machine : Machine) :
    assertThat condition expression machine =
      .error (.assertFailed expression) machine := by
  simp [assertThat, fails]

/-! ## The allocator only descends -/

/-- No call of the program raises the allocator's pointer. -/
abbrev Descends {Result : Type} (program : Exec Result) : Prop :=
  NeverRaises Machine.allocationAddr program

theorem load_descends (address : Nat) : Descends (load address) :=
  fun _ => le_rfl

theorem update_descends (address : Nat) (change : U64 → U64) :
    Descends (update address change) :=
  fun _ => le_rfl

theorem allocPage_descends : Descends allocPage := by
  intro machine
  simp

theorem touch_descends (address : U64) : Descends (touch address) :=
  NeverRaises.get.bind fun _ =>
    (NeverRaises.throw _).ite (NeverRaises.pure _)

theorem assertThat_descends
    (condition : Prop) [Decidable condition] (expression : String) :
    Descends (assertThat condition expression) :=
  NeverRaises.ite (NeverRaises.pure ()) (NeverRaises.throw _)

/-- The program takes at most `bound` bytes from the allocator. -/
abbrev TakesAtMost
    {Result : Type} (bound : Nat) (program : Exec Result) : Prop :=
  LowersAtMost Machine.allocationAddr bound program

theorem load_takes (address : Nat) : TakesAtMost 0 (load address) :=
  fun _ => Int.sub_le_self _ le_rfl

theorem update_takes (address : Nat) (change : U64 → U64) :
    TakesAtMost 0 (update address change) :=
  fun _ => Int.sub_le_self _ le_rfl

theorem allocPage_takes : TakesAtMost 4096 allocPage :=
  fun _ => le_rfl

theorem touch_takes (address : U64) : TakesAtMost 0 (touch address) :=
  LowersAtMost.get.bind fun _ =>
    (LowersAtMost.throw _).ite (LowersAtMost.pure _)

theorem assertThat_takes
    (condition : Prop) [Decidable condition] (expression : String) :
    TakesAtMost 0 (assertThat condition expression) :=
  LowersAtMost.ite (LowersAtMost.pure ()) (LowersAtMost.throw _)

/-! ## The boot tables -/

namespace KernelImage

variable (image : KernelImage)

theorem aligned_l3 : 4096 ∣ image.identPtL3 := by
  have aligned := image.aligned
  simp only [identPtL3]
  omega

theorem aligned_l2 : 4096 ∣ image.identPtL2 := by
  have aligned := image.aligned
  simp only [identPtL2, identPtL3]
  omega

end KernelImage

@[simp]
theorem root_boot (image : KernelImage) (rest : Memory) :
    (Machine.boot image rest).root = image.identPtL4 := by
  have aligned := image.aligned
  have inside := image.inside
  have below := image.below
  change (FrameEntry.standard.pointer _).toNat = _
  rw [FrameEntry.toNat_pointer]
  simp only [Machine.boot, BitVec.toNat_ofNat]
  omega

/-- Every slot of a table lies in the table's page. -/
theorem slotAddress_mem (table : Nat) (index : Fin 512) :
    table ≤ slotAddress table index ∧
      slotAddress table index < table + 4096 := by
  have bound := index.isLt
  simp only [slotAddress]
  omega

theorem slotAddress_eq_table_iff (table : Nat) (index : Fin 512) :
    slotAddress table index = table ↔ index = 0 := by
  simp only [slotAddress, Fin.ext_iff, Fin.val_zero]
  omega

theorem bootMemory_l4
    (image : KernelImage) (rest : Memory) (index : Fin 512) :
    bootMemory image rest (slotAddress image.identPtL4 index) =
      if index = 0 then BitVec.ofNat 64 (image.identPtL3 + 0x67) else 0 := by
  rw [bootMemory, if_pos (slotAddress_mem _ _)]
  simp only [slotAddress_eq_table_iff]

theorem bootMemory_l3
    (image : KernelImage) (rest : Memory) (index : Fin 512) :
    bootMemory image rest (slotAddress image.identPtL3 index) =
      if index = 0 then BitVec.ofNat 64 (image.identPtL2 + 0x67) else 0 := by
  have inPage := slotAddress_mem image.identPtL3 index
  have notL4 :
      ¬ (image.identPtL4 ≤ slotAddress image.identPtL3 index ∧
        slotAddress image.identPtL3 index < image.identPtL4 + 4096) := by
    simp only [KernelImage.identPtL3] at *
    omega
  rw [bootMemory, if_neg notL4, if_pos inPage]
  simp only [slotAddress_eq_table_iff]

/-- The boot directory maps the first GiB by large pages. -/
theorem bootMemory_l2
    (image : KernelImage) (rest : Memory) (index : Fin 512) :
    bootMemory image rest (slotAddress image.identPtL2 index) =
      identPde index := by
  have inPage := slotAddress_mem image.identPtL2 index
  have notL4 :
      ¬ (image.identPtL4 ≤ slotAddress image.identPtL2 index ∧
        slotAddress image.identPtL2 index < image.identPtL4 + 4096) := by
    simp only [KernelImage.identPtL2, KernelImage.identPtL3] at *
    omega
  have notL3 :
      ¬ (image.identPtL3 ≤ slotAddress image.identPtL2 index ∧
        slotAddress image.identPtL2 index < image.identPtL3 + 4096) := by
    simp only [KernelImage.identPtL2] at *
    omega
  rw [bootMemory, if_neg notL4, if_neg notL3, if_pos inPage]
  congr 1
  simp only [slotAddress]
  omega

end NopOS.Mmu.PhysicalMachine
