import NopOS.Mmu.TableUpdate

/-!
# What each step of the mapper does

One specification for each of the three steps from which `map` is built:
making sure that an entry names a table, splitting the first page of a
directory, and assigning a page-table entry.
-/

namespace NopOS.Mmu.MapperSteps

open NopOS.Lib.BitField
open NopOS.Lib.RadixTree
open NopOS.Lib.StatefulProgram
open NopOS.Mmu.PageTableEntry
open NopOS.Mmu.AddressTranslation
open NopOS.Mmu.PhysicalMachine
open NopOS.Mmu.Mapper
open NopOS.Mmu.TableInvariant
open NopOS.Mmu.TableUpdate

/-! ## Entries the mapper writes -/

/-- `present = 1; readWrite = 1; page(address)` applied to an entry. -/
def pageEntry (entry address : U64) : U64 :=
  FrameEntry.standard.setPointer
    (FrameEntry.standard.setReadWrite
      (FrameEntry.standard.setPresent entry)) address

theorem pageEntry_getLsbD
    (entry address : U64) {bit : Nat} (low : bit < 12) :
    (pageEntry entry address).getLsbD bit =
      (decide (bit = 1) || (decide (bit = 0) || entry.getLsbD bit)) := by
  rw [pageEntry, FrameEntry.getLsbD_setPointer_low _ _ low,
    FrameEntry.getLsbD_setReadWrite, FrameEntry.getLsbD_setPresent]

theorem frameBase_eq_pointer (entry : U64) :
    frameBase 12 entry = (FrameEntry.standard.pointer entry).toNat :=
  (FrameEntry.toNat_pointer entry).symm

/-- The 40-bit field holds bits 51 to 12 of the address. -/
theorem frameBase_setPointer (entry address : U64) :
    frameBase 12 (FrameEntry.standard.setPointer entry address) =
      address.toNat % 2 ^ 52 / 2 ^ 12 * 2 ^ 12 := by
  have bound := address.isLt
  rw [frameBase_eq_pointer]
  simp only [FrameEntry.pointer, FrameEntry.setPointer,
    Field.get_set]
  simp only [FrameEntry.standard, BitVec.toNat_shiftLeft,
    BitVec.toNat_setWidth, BitVec.toNat_ushiftRight, Nat.shiftLeft_eq,
    Nat.shiftRight_eq_div_pow]
  omega

/-- An entry made to name an aligned page names it. -/
theorem namesTable_setPointer
    {entry page : U64}
    (present : entry.getLsbD 0 = true) (writable : entry.getLsbD 1 = true)
    (notLarge : entry.getLsbD 7 = false)
    (aligned : 4096 ∣ page.toNat) (physical : page.toNat < 2 ^ 52) :
    NamesTable (FrameEntry.standard.setPointer entry page) page.toNat where
  present := by
    rw [FrameEntry.getLsbD_setPointer_low _ _ (by decide), present]
  writable := by
    rw [FrameEntry.getLsbD_setPointer_low _ _ (by decide), writable]
  notLarge := by
    rw [FrameEntry.getLsbD_setPointer_low _ _ (by decide), notLarge]
  frame := by
    rw [frameBase_setPointer]
    omega

theorem namesTable_pageEntry_zero
    {page : U64}
    (aligned : 4096 ∣ page.toNat) (physical : page.toNat < 2 ^ 52) :
    NamesTable (pageEntry 0 page) page.toNat := by
  apply namesTable_setPointer _ _ _ aligned physical <;>
    simp [FrameEntry.getLsbD_setReadWrite, FrameEntry.getLsbD_setPresent,
      -BitVec.getLsbD_eq_getElem]

/-! ## Runs of the steps -/

/-- An assignment writes one slot. -/
@[simp]
theorem assignPte_run (slot : Nat) (address : U64) (machine : Machine) :
    assignPte slot address machine =
      .ok () { machine with
        memory :=
          Function.update machine.memory slot
            (pageEntry (machine.memory slot) address) } := by
  simp only [assignPte, pte_eq_standard]
  rw [bind_of_ok (update_run _ _ _), bind_of_ok (update_run _ _ _),
    update_run]
  simp [Function.update_self, pageEntry]

theorem assignPte_descends (slot : Nat) (address : U64) :
    Descends (assignPte slot address) := by
  intro machine
  simp

theorem pdeToPt_run_of_pointer
    {slot : Nat} {machine : Machine}
    (pointer : (machine.memory slot).getLsbD 7 = false) :
    pdeToPt slot machine = .ok () machine := by
  rw [pdeToPt, bind_of_ok (load_run slot machine)]
  exact assertThat_run_of_true ((pdeType_eq_PD_PT_iff _).2 pointer) _ _

/-- `to_pt` of a large page fails its assertion. -/
theorem pdeToPt_run_of_large
    {slot : Nat} {machine : Machine}
    (large : (machine.memory slot).getLsbD 7 = true) :
    pdeToPt slot machine =
      .error (.assertFailed "type() == pd_type::PD_PT") machine := by
  rw [pdeToPt, bind_of_ok (load_run slot machine)]
  apply assertThat_run_of_false
  rw [pdeType_eq_PD_PT_iff, large]
  simp

theorem pdpteToPd_run_of_pointer
    {slot : Nat} {machine : Machine}
    (pointer : (machine.memory slot).getLsbD 7 = false) :
    pdpteToPd slot machine = .ok () machine := by
  rw [pdpteToPd, bind_of_ok (load_run slot machine)]
  exact assertThat_run_of_true ((pdpteType_eq_PDPT_PD_iff _).2 pointer) _ _

theorem pdeToPt_descends (slot : Nat) : Descends (pdeToPt slot) :=
  (load_descends slot).bind fun _ => assertThat_descends _ _

theorem pdpteToPd_descends (slot : Nat) : Descends (pdpteToPd slot) :=
  (load_descends slot).bind fun _ => assertThat_descends _ _

theorem ensureTable_descends (layout : FrameEntry) (slot : Nat) :
    Descends (ensureTable layout slot) :=
  (update_descends _ _).bind fun _ =>
    (update_descends _ _).bind fun _ =>
      (load_descends _).bind fun _ =>
        (allocPage_descends.bind fun _ => update_descends _ _).ite
          (NeverRaises.pure _)

theorem break2mLoop_descends (pt remaining index : Nat) (start : U64) :
    Descends (break2mLoop pt remaining index start) := by
  induction remaining generalizing index start with
  | zero => exact NeverRaises.pure _
  | succ remaining induction =>
      exact (assignPte_descends _ _).bind fun _ => induction _ _

theorem break2m_descends (slot : Nat) : Descends (break2m slot) :=
  (load_descends _).bind fun _ =>
    (update_descends _ _).bind fun _ =>
      (pdeToPt_descends _).bind fun _ =>
        allocPage_descends.bind fun _ =>
          (update_descends _ _).bind fun _ =>
            (load_descends _).bind fun _ => break2mLoop_descends _ _ _ _

theorem breakFirst_descends (pd : Nat) : Descends (breakFirst pd) :=
  (load_descends _).bind fun _ =>
    (break2m_descends _).ite (NeverRaises.pure _)

theorem assignPte_takes (slot : Nat) (address : U64) :
    TakesAtMost 0 (assignPte slot address) := by
  intro machine
  simp

theorem pdeToPt_takes (slot : Nat) : TakesAtMost 0 (pdeToPt slot) :=
  (load_takes slot).bind fun _ => assertThat_takes _ _

theorem pdpteToPd_takes (slot : Nat) : TakesAtMost 0 (pdpteToPd slot) :=
  (load_takes slot).bind fun _ => assertThat_takes _ _

/-- A missing table takes a page. -/
theorem ensureTable_takes (layout : FrameEntry) (slot : Nat) :
    TakesAtMost 4096 (ensureTable layout slot) := by
  have nothing : TakesAtMost 4096 (pure PUnit.unit : Exec PUnit) :=
    (LowersAtMost.pure _).weaken (Nat.zero_le _)
  exact
    (update_takes _ _).bind fun _ =>
      (update_takes _ _).bind fun _ =>
        (load_takes _).bind fun _ =>
          (allocPage_takes.bind fun _ => update_takes _ _).ite nothing

theorem break2mLoop_takes (pt remaining index : Nat) (start : U64) :
    TakesAtMost 0 (break2mLoop pt remaining index start) := by
  induction remaining generalizing index start with
  | zero => exact LowersAtMost.pure _
  | succ remaining induction =>
      exact (assignPte_takes _ _).bind fun _ => induction _ _

/-- A split takes a page. -/
theorem break2m_takes (slot : Nat) : TakesAtMost 4096 (break2m slot) :=
  (load_takes _).bind fun _ =>
    (update_takes _ _).bind fun _ =>
      (pdeToPt_takes _).bind fun _ =>
        allocPage_takes.bind fun _ =>
          (update_takes _ _).bind fun _ =>
            (load_takes _).bind fun _ => break2mLoop_takes _ _ _ _

theorem breakFirst_takes (pd : Nat) : TakesAtMost 4096 (breakFirst pd) := by
  have nothing : TakesAtMost 4096 (pure PUnit.unit : Exec PUnit) :=
    (LowersAtMost.pure _).weaken (Nat.zero_le _)
  exact
    (load_takes _).bind fun _ => (break2m_takes _).ite nothing

/-- An entry which names a table is left as it is. -/
theorem ensureTable_run_of_names
    {slot next : Nat} {machine : Machine}
    (names : NamesTable (machine.memory slot) next) (notNull : next ≠ 0) :
    ensureTable FrameEntry.standard slot machine = .ok () machine := by
  have pointerNotNull :
      FrameEntry.standard.pointer (machine.memory slot) ≠ 0 := by
    intro null
    have frame := names.frame
    rw [frameBase_eq_pointer, null] at frame
    exact notNull (by simpa using frame.symm)
  rw [ensureTable, bind_of_ok (update_run _ _ _),
    bind_of_ok (update_run _ _ _), bind_of_ok (load_run _ _)]
  simp only [Function.update_self,
    FrameEntry.setPresent_eq_self names.present,
    FrameEntry.setReadWrite_eq_self names.writable,
    Function.update_eq_self, pointerNotNull, if_false]
  rfl

/-- The page the allocator gives next. -/
def nextPage (machine : Machine) : U64 :=
  BitVec.ofInt 64 (machine.allocationAddr - 4096)

/-- State after an absent entry was made to name a new page. -/
def linkedMachine (machine : Machine) (slot : Nat) : Machine :=
  { machine with
    allocationAddr := machine.allocationAddr - 4096
    memory :=
      Function.update
        (clearPage (nextPage machine).toNat machine.memory)
        slot
        (pageEntry 0 (nextPage machine)) }

/-- An absent entry costs one page. -/
theorem ensureTable_run_of_zero
    {slot : Nat} {machine : Machine} (zero : machine.memory slot = 0) :
    ∃ after,
      ensureTable FrameEntry.standard slot machine = .ok () after ∧
        after.allocationAddr = machine.allocationAddr - 4096 ∧
        (¬ ((nextPage machine).toNat ≤ slot ∧
            slot < (nextPage machine).toNat + 4096) →
          after = linkedMachine machine slot) := by
  have noPointer :
      FrameEntry.standard.pointer
        (FrameEntry.standard.setReadWrite
          (FrameEntry.standard.setPresent 0)) = 0 := by
    decide
  rw [ensureTable, bind_of_ok (update_run _ _ _),
    bind_of_ok (update_run _ _ _), bind_of_ok (load_run _ _)]
  simp only [Function.update_self, Function.update_idem, zero, noPointer,
    if_true]
  rw [bind_of_ok (allocPage_run _), update_run]
  refine ⟨_, rfl, rfl, fun outside => ?_⟩
  rw [linkedMachine, show BitVec.ofInt 64 (machine.allocationAddr - 4096) =
    nextPage machine from rfl]
  congr 1
  funext address
  by_cases same : address = slot
  · subst address
    simp only [Function.update_self, clearPage, if_neg outside, pageEntry]
  · simp only [Function.update_of_ne same, clearPage]

/-! ## Splitting a 2 MiB page -/

/-- The loop fills the entries it passes and touches nothing else. -/
theorem break2mLoop_run
    (pt remaining index : Nat) (start : U64) (machine : Machine) :
    ∃ after,
      break2mLoop pt remaining index start machine = .ok () after ∧
        after.cr3 = machine.cr3 ∧
        after.allocationAddr = machine.allocationAddr ∧
        (∀ step < remaining,
          after.memory (pt + 8 * (index + step)) =
            pageEntry (machine.memory (pt + 8 * (index + step)))
              (start + BitVec.ofNat 64 (4096 * step))) ∧
        ∀ address,
          (∀ step < remaining, address ≠ pt + 8 * (index + step)) →
            after.memory address = machine.memory address := by
  induction remaining generalizing index start machine with
  | zero => exact ⟨machine, rfl, rfl, rfl, by simp, by simp⟩
  | succ remaining induction =>
      rcases
          induction (index + 1) (start + 1024 * 4)
            { machine with
              memory :=
                Function.update machine.memory (pt + 8 * index)
                  (pageEntry (machine.memory (pt + 8 * index)) start) } with
        ⟨after, runs, sameCr3, sameAllocator, filled, elsewhere⟩
      refine ⟨after, ?_, sameCr3, sameAllocator, ?_, ?_⟩
      · rw [break2mLoop, bind_of_ok (assignPte_run _ _ _)]
        exact runs
      · intro step inLoop
        cases step with
        | zero =>
            rw [elsewhere _ (by omega)]
            simp
        | succ step =>
            have laterSlot :
                pt + 8 * (index + (step + 1)) =
                  pt + 8 * (index + 1 + step) := by omega
            have notFirst : pt + 8 * (index + 1 + step) ≠ pt + 8 * index := by
              omega
            have laterStart :
                start + 1024 * 4 + BitVec.ofNat 64 (4096 * step) =
                  start + BitVec.ofNat 64 (4096 * (step + 1)) := by
              rw [show (1024 * 4 : U64) = BitVec.ofNat 64 4096 from rfl,
                BitVec.add_assoc, ← BitVec.ofNat_add]
              congr 2
              omega
            rw [laterSlot, filled step (by omega), laterStart]
            simp only [Function.update_of_ne notFirst]
      · intro address outside
        have notFirst : address ≠ pt + 8 * index := by
          simpa using outside 0 (by omega)
        rw [elsewhere address]
        · simp only [Function.update_of_ne notFirst]
        · intro step inLoop
          have apart := outside (step + 1) (by omega)
          omega

/--
`break_2m` always returns and takes one page.  If that page is an aligned
physical one which does not hold the entry, the entry names the page, and the
entries of the page map consecutive 4 KiB frames from `page()` on.
-/
theorem break2m_run (slot : Nat) (machine : Machine) :
    ∃ after,
      break2m slot machine = .ok () after ∧
        after.cr3 = machine.cr3 ∧
        after.allocationAddr = machine.allocationAddr - 4096 ∧
        ∀ page : U64,
          nextPage machine = page →
            4096 ∣ page.toNat →
              page.toNat < 2 ^ 52 →
                ¬ (page.toNat ≤ slot ∧ slot < page.toNat + 4096) →
                  after.memory slot =
                      FrameEntry.standard.setPointer
                        (pdeSetType (machine.memory slot) .PD_PT) page ∧
                    (∀ index : Fin 512,
                      after.memory (slotAddress page.toNat index) =
                        pageEntry 0
                          (pdePage (machine.memory slot) +
                            BitVec.ofNat 64 (4096 * index.val))) ∧
                    ∀ address,
                      address ≠ slot →
                        ¬ (page.toNat ≤ address ∧
                          address < page.toNat + 4096) →
                          after.memory address = machine.memory address := by
  have pointer :
      ((pdeSetType (machine.memory slot) .PD_PT).getLsbD 7) = false := by
    simp [getLsbD_pdeSetType_PD_PT, -BitVec.getLsbD_eq_getElem]
  rw [break2m, bind_of_ok (load_run _ _), bind_of_ok (update_run _ _ _),
    bind_of_ok (pdeToPt_run_of_pointer (by
      simpa only [Function.update_self] using pointer)),
    bind_of_ok (allocPage_run _), bind_of_ok (update_run _ _ _),
    bind_of_ok (load_run _ _)]
  simp only [pdePt_eq_standard, pdePtPt, Function.update_self,
    show BitVec.ofInt 64 (machine.allocationAddr - 4096) =
      nextPage machine from rfl]
  rcases break2mLoop_run _ _ _ _ _ with
    ⟨after, runs, sameCr3, sameAllocator, filled, elsewhere⟩
  refine ⟨after, runs, sameCr3, sameAllocator, ?_⟩
  intro page pageEq aligned physical outside
  have notCleared :
      ∀ memory : Memory, clearPage page.toNat memory slot = memory slot :=
    fun memory => if_neg outside
  simp only [pageEq, FrameEntry.pointer_setPointer _ _ aligned physical,
    notCleared, Function.update_self] at filled elsewhere
  have slotOutside :
      ∀ step < 512, slot ≠ page.toNat + 8 * (0 + step) := by
    intro step inLoop
    omega
  refine ⟨elsewhere slot slotOutside |>.trans (Function.update_self ..),
    ?_, ?_⟩
  · intro index
    have bound := index.isLt
    have notSlot := slotOutside index bound
    have entry := filled index bound
    simp only [Nat.zero_add] at entry notSlot
    simp only [slotAddress]
    rw [entry, Function.update_of_ne notSlot.symm, clearPage,
      if_pos (by omega)]
  · intro address notSlot notInPage
    rw [elsewhere address (by
      intro step inLoop
      omega)]
    simp only [Function.update_of_ne notSlot, clearPage, if_neg notInPage]

end NopOS.Mmu.MapperSteps
