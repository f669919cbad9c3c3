import NopOS.Mmu.PhysicalMachine

/-!
# The mapper of `pagetable.cc`

`break_2m`, `is_mappped` and `map` as the source computes them.  Both of the
latter look at the type of entry 0 of a page directory, whatever the entry
they go on to use; the assertion in `pde::to_pt` is made on the entry used.
-/

namespace NopOS.Mmu.Mapper

open NopOS.Mmu.PageTableEntry
open NopOS.Mmu.AddressTranslation
open NopOS.Mmu.PhysicalMachine

/-- The assertion of `pdpte::to_pd()`. -/
def pdpteToPd (slot : Nat) : Exec Unit := do
  assertThat (pdpteType (← load slot) = .PDPT_PD)
    "type() == pdpt_type::PDPT_PD"

/-- The assertion of `pde::to_pt()`. -/
def pdeToPt (slot : Nat) : Exec Unit := do
  assertThat (pdeType (← load slot) = .PD_PT) "type() == pd_type::PD_PT"

/-- `present = 1; readWrite = 1; page(address)` on a `pte`. -/
def assignPte (slot : Nat) (address : U64) : Exec Unit := do
  update slot pte.setPresent
  update slot pte.setReadWrite
  update slot (pte.setPointer · address)

/-- The loop of `break_2m`, from page-table entry `index` on. -/
def break2mLoop (pt : Nat) : Nat → Nat → U64 → Exec Unit
  | 0, _, _ => pure ()
  | remaining + 1, index, start => do
      assignPte (pt + 8 * index) start
      break2mLoop pt remaining (index + 1) (start + 1024 * 4)

/-- `break_2m(pde *)`. -/
def break2m (slot : Nat) : Exec Unit := do
  let start := pdePage (← load slot)
  update slot (pdeSetType · .PD_PT)
  pdeToPt slot
  let page ← allocPage
  update slot (pdePt.setPointer · page)
  let pt := pdePtPt (← load slot)
  break2mLoop pt.toNat 512 0 start

/-- `is_mappped(vaddr)`. -/
def isMappped (addr : Vaddr) : Exec Bool := do
  let machine ← get
  let pml4 := slotAddress (cr3PML4ptr machine.cr3).toNat addr.PML4
  if pml4e.present.get (← load pml4) = 0 then
    return false
  let pdpte :=
    slotAddress (pml4ePDPTptr (← load pml4)).toNat addr.directoryPtr
  pdpteToPd pdpte
  if pdptePd.present.get (← load pdpte) = 0 then
    return false
  let pd := (pdptePdPd (← load pdpte)).toNat
  if pdeType (← load (slotAddress pd 0)) = .PD_2M then
    return true
  let pde := slotAddress pd addr.directory
  pdeToPt pde
  if pdePt.present.get (← load pde) = 0 then
    return false
  let pte_ := slotAddress (pdePtPt (← load pde)).toNat addr.table
  return pte.present.get (← load pte_) ≠ 0

/--
The statements `map` makes at each of the three levels above the page table:
`present = 1; readWrite = 1; if (pointer() == nullptr) pointer(alloc_page())`.
-/
def ensureTable (layout : FrameEntry) (slot : Nat) : Exec Unit := do
  update slot layout.setPresent
  update slot layout.setReadWrite
  if layout.pointer (← load slot) = 0 then
    let page ← allocPage
    update slot (layout.setPointer · page)

/-- `if (pd->type() == pd_type::PD_2M) break_2m(pd)`. -/
def breakFirst (pd : Nat) : Exec Unit := do
  if pdeType (← load (slotAddress pd 0)) = .PD_2M then
    break2m (slotAddress pd 0)

/-- `map(vaddr, u64)`. -/
def map (addr : Vaddr) (phys : U64) : Exec Unit := do
  let machine ← get
  let pml4 := slotAddress (cr3PML4ptr machine.cr3).toNat addr.PML4
  ensureTable pml4e pml4
  let pdpte :=
    slotAddress (pml4ePDPTptr (← load pml4)).toNat addr.directoryPtr
  pdpteToPd pdpte
  ensureTable pdptePd pdpte
  let pd := (pdptePdPd (← load pdpte)).toNat
  breakFirst pd
  let pde := slotAddress pd addr.directory
  pdeToPt pde
  ensureTable pdePt pde
  let pte_ := slotAddress (pdePtPt (← load pde)).toNat addr.table
  assignPte pte_ phys

end NopOS.Mmu.Mapper
