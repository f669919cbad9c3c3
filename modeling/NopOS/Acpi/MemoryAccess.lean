import NopOS.Lib.WordBytes
import NopOS.Acpi.PhysicalAddress

/-!
# `AcpiOsReadMemory` and `AcpiOsWriteMemory`

Both functions dereference the physical address which they are given.  The
processor takes it for a virtual one and translates it, so that they reach
the physical address exactly where the tables map it to itself: in the first
gigabyte, on the pages which `AcpiOsMapMemory` has left alone.  A write may
hit the tables and change where its own address leads, so that the access must
stay off the entries which translate its address.
-/

namespace NopOS.Acpi.MemoryAccess

open NopOS.Lib.LittleEndian
open NopOS.Lib.WordBytes
open NopOS.Lib.RadixTree
open NopOS.Lib.StatefulProgram
open NopOS.Mmu.PageTableEntry
open NopOS.Mmu.AddressTranslation
open NopOS.Mmu.PhysicalMachine
open NopOS.Mmu.TableInvariant
open NopOS.Mmu.MapRuns
open NopOS.Acpi.InterruptHandlers (AcpiStatus)
open NopOS.Acpi.PhysicalAddress

/-- `u32`, the width of an access in bits. -/
abbrev U32 := BitVec 32

/-! ## Accesses through the page tables -/

/-- The physical address of a byte; a write needs a writable page. -/
def translate (writes : Bool) (address : U64) : Exec Nat := do
  match (← get).walk address with
  | none => throw (.pageFault address)
  | some found =>
      if writes = true ∧ found.writable = false then
        throw (.pageFault address)
      else return found.phys

/-- The physical addresses of consecutive bytes. -/
def translateBytes (writes : Bool) : Nat → U64 → Exec (List Nat)
  | 0, _ => return []
  | count + 1, address => do
      let place ← translate writes address
      let places ← translateBytes writes count (address + 1)
      return place :: places

/-- `*reinterpret_cast<T *>(address)`, with `count` the size of `T`. -/
def loadBytes (address : U64) (count : Nat) : Exec U64 := do
  let places ← translateBytes false count address
  return BitVec.ofNat 64 (numberAt (← get).memory places)

/-- `*reinterpret_cast<T *>(address) = value`. -/
def storeBytes (address : U64) (count : Nat) (value : U64) : Exec Unit := do
  let places ← translateBytes true count address
  modify fun machine =>
    { machine with memory := storeAt machine.memory places value.toNat }

/-- `AcpiOsReadMemory`, with what it stores in `*Value`. -/
def acpiOsReadMemory (address : U64) (width : U32) :
    Exec (AcpiStatus × Option U64) :=
  match width.toNat with
  | 8 => do return (.ok, some (← loadBytes address 1))
  | 16 => do return (.ok, some (← loadBytes address 2))
  | 32 => do return (.ok, some (← loadBytes address 4))
  | 64 => do return (.ok, some (← loadBytes address 8))
  | _ => return (.badParameter, none)

/-- `AcpiOsWriteMemory`. -/
def acpiOsWriteMemory (address value : U64) (width : U32) :
    Exec AcpiStatus :=
  match width.toNat with
  | 8 => do
      storeBytes address 1 value
      return .ok
  | 16 => do
      storeBytes address 2 value
      return .ok
  | 32 => do
      storeBytes address 4 value
      return .ok
  | 64 => do
      storeBytes address 8 value
      return .ok
  | _ => return .badParameter

/-! ## Physical accesses -/

/-- The address leads to the physical memory of the same number. -/
def LeadsToItself (machine : Machine) (address : U64) : Prop :=
  (machine.walk address).map Translation.phys = some address.toNat

/-- The state after a number was stored in physical memory. -/
def storedAt (machine : Machine) (place count : Nat) (value : U64) :
    Machine :=
  { machine with
    memory :=
      storeAt machine.memory (List.range' place count) value.toNat }

/-- The functions read and write the bytes of physical memory, through
addresses which lead there. -/
structure AccessesPhysical
    (machine : Machine) (address : U64) (width : U32) : Prop where
  leads : LeadsToItself machine address
  reads :
    acpiOsReadMemory address width machine =
      .ok
        (.ok,
          some
            (BitVec.ofNat 64
              (littleEndian (byteAt machine.memory) address.toNat
                (width.toNat / 8)))) machine
  writes :
    ∀ value, ∃ after,
      acpiOsWriteMemory address value width machine = .ok .ok after ∧
        (∀ i < width.toNat / 8,
          byteAt after.memory (address.toNat + i) = byteOf value.toNat i) ∧
        (∀ place,
          (place < address.toNat ∨
              address.toNat + width.toNat / 8 ≤ place) →
            byteAt after.memory place = byteAt machine.memory place) ∧
        LeadsToItself after address ∧
        acpiOsReadMemory address width after =
          .ok
            (.ok, some (BitVec.ofNat 64 (value.toNat % 2 ^ width.toNat)))
            after

/-- Whatever is stored at the address, the address leads to itself. -/
def OffItsOwnTables (machine : Machine) (address : U64) (count : Nat) :
    Prop :=
  ∀ value,
    LeadsToItself (storedAt machine address.toNat count value) address

/-! ## One access -/

section Access

variable {machine : Machine} {address : U64} {found : Translation}

/-- A translation that is there is used. -/
theorem translate_run
    {writes : Bool} (translated : machine.walk address = some found)
    (allowed : writes = true → found.writable = true) :
    translate writes address machine = .ok found.phys machine := by
  have granted : ¬ (writes = true ∧ found.writable = false) := by
    rintro ⟨isWrite, readOnly⟩
    rw [allowed isWrite] at readOnly
    cases readOnly
  rw [translate, bind_of_ok (get_run machine), translated]
  simp only
  rw [if_neg granted]
  rfl

theorem ofNat_succ (address : U64) (i : Nat) :
    address + BitVec.ofNat 64 i + 1 = address + BitVec.ofNat 64 (i + 1) := by
  rw [BitVec.ofNat_add, BitVec.add_assoc]
  rfl

/-- The bytes of one page are found in a row. -/
theorem translateBytes_run
    {writes : Bool} {count : Nat} (i : Nat)
    (inPage : address.toNat % 4096 + i + count ≤ 4096)
    (translated : machine.walk address = some found)
    (allowed : writes = true → found.writable = true) :
    translateBytes writes count (address + BitVec.ofNat 64 i) machine =
      .ok (List.range' (found.phys + i) count) machine := by
  induction count generalizing i with
  | zero => rfl
  | succ count induction =>
      have here :
          machine.walk (address + BitVec.ofNat 64 i) =
            some { found with phys := found.phys + i } :=
        walk_add (by omega) translated
      have first :
          translate writes (address + BitVec.ofNat 64 i) machine =
            .ok (found.phys + i) machine :=
        translate_run here allowed
      rw [translateBytes, bind_of_ok first, ofNat_succ,
        bind_of_ok (induction (i + 1) (by omega)), List.range'_succ]
      rfl

/-- Within one page the bytes lie one after another. -/
theorem translateBytes_start
    {writes : Bool} {count : Nat}
    (inPage : address.toNat % 4096 + count ≤ 4096)
    (translated : machine.walk address = some found)
    (allowed : writes = true → found.writable = true) :
    translateBytes writes count address machine =
      .ok (List.range' found.phys count) machine := by
  have start : address + BitVec.ofNat 64 0 = address :=
    BitVec.add_zero address
  have places := translateBytes_run 0 (by omega) translated allowed
  rwa [start, Nat.add_zero] at places

/-- A load within a page reads the bytes of its frame. -/
theorem loadBytes_run
    {count : Nat} (inPage : address.toNat % 4096 + count ≤ 4096)
    (translated : machine.walk address = some found) :
    loadBytes address count machine =
      .ok
        (BitVec.ofNat 64
          (littleEndian (byteAt machine.memory) found.phys count))
        machine := by
  have places : translateBytes false count address machine = _ :=
    translateBytes_start inPage translated nofun
  rw [loadBytes, bind_of_ok places, bind_of_ok (get_run machine),
    numberAt_range]
  rfl

/-- A store within a page writes the bytes of its frame. -/
theorem storeBytes_run
    {count : Nat} (value : U64)
    (inPage : address.toNat % 4096 + count ≤ 4096)
    (translated : machine.walk address = some found)
    (writable : found.writable = true) :
    storeBytes address count value machine =
      .ok () (storedAt machine found.phys count value) := by
  have places : translateBytes true count address machine = _ :=
    translateBytes_start inPage translated fun _ => writable
  rw [storeBytes, bind_of_ok places]
  rfl

end Access

/-! ## The four widths -/

/-- The widths the functions know. -/
def KnownWidth (width : U32) : Prop :=
  width = 8 ∨ width = 16 ∨ width = 32 ∨ width = 64

/-- The address is a multiple of the size of the operand. -/
def NaturallyAligned (address : U64) (width : U32) : Prop :=
  width.toNat / 8 ∣ address.toNat

instance (address : U64) (width : U32) :
    Decidable (NaturallyAligned address width) :=
  inferInstanceAs (Decidable (_ ∣ _))

section Widths

variable {machine : Machine} {address : U64} {width : U32}

theorem acpiOsReadMemory_eq (known : KnownWidth width) (address : U64) :
    acpiOsReadMemory address width =
      (do return (.ok, some (← loadBytes address (width.toNat / 8)))) := by
  rcases known with rfl | rfl | rfl | rfl <;> rfl

theorem acpiOsWriteMemory_eq
    (known : KnownWidth width) (address value : U64) :
    acpiOsWriteMemory address value width =
      (do
        storeBytes address (width.toNat / 8) value
        return .ok) := by
  rcases known with rfl | rfl | rfl | rfl <;> rfl

/-- An aligned access stays in its page. -/
theorem inPage_of_aligned
    (known : KnownWidth width) (aligned : NaturallyAligned address width) :
    address.toNat % 4096 + width.toNat / 8 ≤ 4096 := by
  rw [NaturallyAligned] at aligned
  rcases known with rfl | rfl | rfl | rfl
  · change address.toNat % 4096 + 1 ≤ 4096
    omega
  · change 2 ∣ address.toNat at aligned
    change address.toNat % 4096 + 2 ≤ 4096
    omega
  · change 4 ∣ address.toNat at aligned
    change address.toNat % 4096 + 4 ≤ 4096
    omega
  · change 8 ∣ address.toNat at aligned
    change address.toNat % 4096 + 8 ≤ 4096
    omega

theorem bytes_of_width (known : KnownWidth width) :
    256 ^ (width.toNat / 8) = 2 ^ width.toNat := by
  rcases known with rfl | rfl | rfl | rfl <;> rfl

/-- An aligned read returns the bytes of the frame. -/
theorem acpiOsReadMemory_run
    {found : Translation} (known : KnownWidth width)
    (aligned : NaturallyAligned address width)
    (translated : machine.walk address = some found) :
    acpiOsReadMemory address width machine =
      .ok
        (.ok,
          some
            (BitVec.ofNat 64
              (littleEndian (byteAt machine.memory) found.phys
                (width.toNat / 8)))) machine := by
  rw [acpiOsReadMemory_eq known,
    bind_of_ok (loadBytes_run (inPage_of_aligned known aligned) translated)]
  rfl

/-- An aligned write changes the bytes of the frame. -/
theorem acpiOsWriteMemory_run
    {found : Translation} (known : KnownWidth width)
    (aligned : NaturallyAligned address width) (value : U64)
    (translated : machine.walk address = some found)
    (writable : found.writable = true) :
    acpiOsWriteMemory address value width machine =
      .ok .ok (storedAt machine found.phys (width.toNat / 8) value) := by
  rw [acpiOsWriteMemory_eq known,
    bind_of_ok
      (storeBytes_run value (inPage_of_aligned known aligned) translated
        writable)]
  rfl

theorem byteAt_storedAt (place count : Nat) (value : U64) :
    byteAt (storedAt machine place count value).memory =
      store (byteAt machine.memory) place count value.toNat :=
  byteAt_storeAt_range place count value.toNat

/-- What `AccessesPhysical` asks, in terms of translations. -/
theorem accessesPhysical_iff
    (known : KnownWidth width) (aligned : NaturallyAligned address width)
    (writable :
      ∀ found, machine.walk address = some found → found.writable = true) :
    AccessesPhysical machine address width ↔
      LeadsToItself machine address ∧
        OffItsOwnTables machine address (width.toNat / 8) := by
  constructor
  · intro accesses
    refine ⟨accesses.leads, ?_⟩
    intro value
    rcases Option.map_eq_some_iff.1 accesses.leads with
      ⟨found, translated, place⟩
    rcases accesses.writes value with ⟨after, returns, -, -, leads, -⟩
    rw [acpiOsWriteMemory_run known aligned value translated
      (writable found translated), place] at returns
    cases returns
    exact leads
  · rintro ⟨leads, offTables⟩
    rcases Option.map_eq_some_iff.1 leads with ⟨found, translated, place⟩
    refine
      { leads := leads
        reads := ?_
        writes := ?_ }
    · rw [acpiOsReadMemory_run known aligned translated, place]
    · intro value
      have leadsAfter := offTables value
      rcases Option.map_eq_some_iff.1 leadsAfter with
        ⟨foundAfter, translatedAfter, placeAfter⟩
      refine
        ⟨storedAt machine address.toNat (width.toNat / 8) value, ?_, ?_, ?_,
          leadsAfter, ?_⟩
      · rw [acpiOsWriteMemory_run known aligned value translated
          (writable found translated), place]
      · intro i inside
        rw [byteAt_storedAt, store_inside inside]
      · intro other outside
        rw [byteAt_storedAt, store_outside outside]
      · rw [acpiOsReadMemory_run known aligned translatedAfter, placeAfter,
          byteAt_storedAt, littleEndian_store, bytes_of_width known]

end Widths

/-! ## Addresses which lead to themselves -/

section Runs

variable
    {image : KernelImage} {rest : Memory} {calls : List MapRequest}
    {machine : Machine} {address : U64}

/-- Off the pages which the calls have mapped the boot tables remain. -/
theorem walk_of_not_covered (run : RequestRun image rest calls machine) :
    ∀ address, ¬ Covered calls address →
      machine.walk address = (Machine.boot image rest).walk address := by
  refine
    run.invariant_with_history
      (fun calls machine =>
        ∀ address, ¬ Covered calls address →
          machine.walk address = (Machine.boot image rest).walk address)
      (fun _ _ => rfl) ?_
  intro calls call before after earlier history step address spared
  rw [covered_append, not_or] at spared
  rw [(step.loopMaps (translates_of_run earlier).tables).kept address spared.2,
    history address spared.1]

/-- What no request covers is still as the boot code left it. -/
theorem walk_of_identity
    (run : RequestRun image rest calls machine)
    (inFirst : address.toNat < 2 ^ 30) (spared : ¬ Covered calls address) :
    machine.walk address =
      some { phys := address.toNat, writable := true } := by
  rw [walk_of_not_covered run address spared,
    walk_boot_inside image rest inFirst]

/-- An address is its own translation in the first GiB, unless a request has
covered it. -/
theorem leadsToItself_iff (run : RequestRun image rest calls machine) :
    LeadsToItself machine address ↔
      address.toNat < 2 ^ 30 ∧ ¬ Covered calls address := by
  constructor
  · intro leads
    rcases Option.map_eq_some_iff.1 leads with ⟨found, translated, place⟩
    have spared : ¬ Covered calls address := by
      intro covers
      have displaced :=
        (translates_of_run run).covered address found covers translated
      rw [place] at displaced
      exact not_displaced_self address displaced
    refine ⟨?_, spared⟩
    by_contra outside
    rw [walk_of_not_covered run address spared,
      walk_boot_outside image rest (not_lt.1 outside)] at translated
    cases translated
  · rintro ⟨inFirst, spared⟩
    rw [LeadsToItself, walk_of_identity run inFirst spared]
    rfl

end Runs

/-! ## Addresses in the tables -/

/-- The slots whose entries translate an address. -/
def Passes (machine : Machine) (address : U64) (slot : Nat) : Prop :=
  ∃ path rest table index,
    walkKey address = path ++ index :: rest ∧
      tableOf machine path = some table ∧ slot = slotAddress table index

/-- None of the bytes at the address lies in an entry which translates it. -/
def OffItsEntries (machine : Machine) (address : U64) (count : Nat) : Prop :=
  ∀ place ∈ List.range' address.toNat count,
    ¬ Passes machine address (wordOf place)

section Tables

variable
    {image : KernelImage} {machine : Machine} {address : U64}
    {count slot : Nat}

/-- A store into other words leaves the walk. -/
theorem offItsOwnTables_of_offItsEntries
    (leads : LeadsToItself machine address)
    (other : OffItsEntries machine address count) :
    OffItsOwnTables machine address count := by
  intro value
  have same :
      (storedAt machine address.toNat count value).walk address =
        machine.walk address := by
    have sameRoot :
        (storedAt machine address.toNat count value).root = machine.root :=
      rfl
    apply PageTables.walk_congr sameRoot
    apply lookup_congr
    intro met rest table index split reached
    apply pageNode_congr
    apply storeAt_of_ne
    intro place member same
    exact
      other place member
        ⟨met, rest, table, index, split, reached, same.symm⟩
  rw [LeadsToItself, same]
  exact leads

/-- All tables lie between 2 MiB and 24 MiB. -/
theorem offItsEntries_of_outside
    (tables : PageTables image machine)
    (outside :
      address.toNat + count ≤ 0x200000 ∨ 0x1800000 ≤ address.toNat) :
    OffItsEntries machine address count := by
  rintro place member ⟨path, rest, table, index, -, reached, same⟩
  have placed := tables.placed reached
  have aligned := placed.aligned
  have above := placed.above
  have below := placed.below
  have bound := index.isLt
  rw [List.mem_range'_1] at member
  simp only [slotAddress, wordOf] at same
  omega

/-- The words which a store reaches from the start of a word. -/
theorem wordOf_of_aligned
    {start place : Nat} (aligned : 8 ∣ start) (short : count ≤ 8)
    (member : place ∈ List.range' start count) : wordOf place = start := by
  rw [List.mem_range'_1] at member
  rw [wordOf]
  omega

/-- Zero stored at the start of a word clears its lowest bit. -/
theorem cleared_word
    {start : Nat} (aligned : 8 ∣ start) (bytes : 0 < count) :
    ((storedAt machine start count 0).memory start).getLsbD 0 = false := by
  have word : wordOf start = start := by
    rw [wordOf]
    omega
  have first : start % 8 = 0 := Nat.mod_eq_zero_of_dvd aligned
  have byte :
      byteAt (storedAt machine start count 0).memory start = byteOf 0 0 := by
    rw [byteAt_storedAt]
    exact store_inside bytes
  have bit := getLsbD_byteAt (storedAt machine start count 0).memory start 0
  rw [byte, word, first] at bit
  exact bit.symm

/-- A store to an entry which translates its address may unmap it. -/
theorem not_offItsOwnTables_of_passes
    (tables : PageTables image machine)
    (passes : Passes machine address address.toNat)
    (bytes : 0 < count) (short : count ≤ 8) :
    ¬ OffItsOwnTables machine address count := by
  rcases passes with ⟨path, rest, table, index, key, reached, onEntry⟩
  intro offTables
  have leads := offTables 0
  rw [LeadsToItself, onEntry] at leads
  have tableAligned := (tables.placed reached).aligned
  have aligned : 8 ∣ slotAddress table index := by
    rw [slotAddress]
    omega
  have change :
      ChangesSlot (nodes machine)
        (nodes (storedAt machine (slotAddress table index) count 0))
        machine.root path table index :=
    { reached := reached
      agree := by
        intro met metTable metIndex metReached different
        apply pageNode_congr
        apply storeAt_of_ne
        intro place member same
        rw [wordOf_of_aligned aligned short member,
          slotAddress_inj (tables.placed metReached).aligned
            tableAligned] at same
        rcases different with otherTable | otherIndex
        · exact otherTable same.1
        · exact otherIndex same.2 }
  have absent :
      nodes (storedAt machine (slotAddress table index) count 0)
          path.length table index =
        .absent :=
    pageNode_of_not_present (cleared_word aligned bytes)
  have unmapped :=
    PageTables.walk_of_absent (change.reached_changed tables.tree) absent key
  rw [unmapped] at leads
  cases leads

/-- From the start of a word on, the entries which translate the address are
exactly what a store must avoid. -/
theorem offItsOwnTables_iff
    (tables : PageTables image machine)
    (leads : LeadsToItself machine address) (aligned : 8 ∣ address.toNat)
    (bytes : 0 < count) (short : count ≤ 8) :
    OffItsOwnTables machine address count ↔
      OffItsEntries machine address count := by
  constructor
  · intro offTables place member passes
    rw [wordOf_of_aligned aligned short member] at passes
    exact not_offItsOwnTables_of_passes tables passes bytes short offTables
  · exact offItsOwnTables_of_offItsEntries leads

end Tables

/-! ## Which addresses are physical ones -/

section Accesses

variable
    {image : KernelImage} {rest : Memory} {calls : List MapRequest}
    {machine : Machine} {address : U64} {width : U32}

theorem size_of_width (known : KnownWidth width) :
    0 < width.toNat / 8 ∧ width.toNat / 8 ≤ 8 := by
  rcases known with rfl | rfl | rfl | rfl <;> decide

/-- What an access needs, as a condition on addresses and on what a store
leaves of the translation. -/
theorem accessesPhysical_iff_identity
    (run : RequestRun image rest calls machine)
    (known : KnownWidth width) (aligned : NaturallyAligned address width) :
    AccessesPhysical machine address width ↔
      LeadsToItself machine address ∧
        OffItsOwnTables machine address (width.toNat / 8) := by
  have writable (leads : LeadsToItself machine address) (found : Translation)
      (translated : machine.walk address = some found) :
      found.writable = true := by
    rcases (leadsToItself_iff run).1 leads with ⟨inFirst, spared⟩
    rw [walk_of_identity run inFirst spared] at translated
    cases translated
    rfl
  constructor
  · intro accesses
    exact
      (accessesPhysical_iff known aligned (writable accesses.leads)).1 accesses
  · intro identity
    exact
      (accessesPhysical_iff known aligned (writable identity.1)).2 identity

/--
In every state which calls of `AcpiOsMapMemory` reach from boot, the two
functions access physical memory in the first gigabyte, on pages no call has
mapped, as long as no byte of the access lies in an entry which translates the
address.  They do so nowhere else in the address space, and from the start of a
word on, such as for all accesses of 64 bits, the condition is exact.
-/
theorem memory_access_is_physical
    (run : RequestRun image rest calls machine)
    (known : KnownWidth width) (aligned : NaturallyAligned address width) :
    (address.toNat < 2 ^ 30 ∧ ¬ Covered calls address ∧
          OffItsEntries machine address (width.toNat / 8) →
        AccessesPhysical machine address width) ∧
      (AccessesPhysical machine address width →
        address.toNat < 2 ^ 30 ∧ ¬ Covered calls address) ∧
      (8 ∣ address.toNat →
        (AccessesPhysical machine address width ↔
          address.toNat < 2 ^ 30 ∧ ¬ Covered calls address ∧
            OffItsEntries machine address (width.toNat / 8))) := by
  have tables := (translates_of_run run).tables
  have size := size_of_width known
  have identity :
      address.toNat < 2 ^ 30 ∧ ¬ Covered calls address ∧
          OffItsEntries machine address (width.toNat / 8) ↔
        LeadsToItself machine address ∧
          OffItsEntries machine address (width.toNat / 8) := by
    rw [leadsToItself_iff run, and_assoc]
  rw [identity, ← leadsToItself_iff run,
    accessesPhysical_iff_identity run known aligned]
  refine ⟨?_, And.left, ?_⟩
  · rintro ⟨leads, offEntries⟩
    exact ⟨leads, offItsOwnTables_of_offItsEntries leads offEntries⟩
  · intro wordAligned
    exact
      and_congr_right fun leads =>
        offItsOwnTables_iff tables leads wordAligned size.1 size.2

end Accesses

/-- After a call has mapped elsewhere, low memory is accessed as it is. -/
theorem memory_access_is_physical_low :
    ∃ after,
      RequestRun smallImage (fun _ => 0) [⟨0x40e, 2⟩] after ∧
        AccessesPhysical after 0x1000 32 := by
  rcases ebda_run with ⟨after, run, -, -, translated⟩
  have leads : LeadsToItself after 0x1000 := by
    rw [LeadsToItself, translated]
    rfl
  have identity := (leadsToItself_iff run).1 leads
  have offEntries : OffItsEntries after 0x1000 ((32 : U32).toNat / 8) :=
    offItsEntries_of_outside (translates_of_run run).tables
      (Or.inl (by decide))
  exact
    ⟨after, run,
      (memory_access_is_physical run (by simp [KnownWidth])
        (by decide)).1 ⟨identity.1, identity.2, offEntries⟩⟩

/-- Above the first gigabyte nothing is mapped after boot. -/
theorem high_memory_faults :
    RequestRun smallImage (fun _ => 0) [] smallBoot ∧
      acpiOsReadMemory 0x40000000 8 smallBoot =
          .error (.pageFault 0x40000000) smallBoot ∧
        acpiOsWriteMemory 0x40000000 0 8 smallBoot =
            .error (.pageFault 0x40000000) smallBoot ∧
          ¬ AccessesPhysical smallBoot 0x40000000 8 := by
  have unmapped : smallBoot.walk 0x40000000 = none :=
    walk_boot_outside _ _ (by decide)
  have faults :
      ∀ writes,
        translate writes 0x40000000 smallBoot =
          .error (.pageFault 0x40000000) smallBoot := by
    intro writes
    rw [translate, bind_of_ok (get_run smallBoot), unmapped]
    rfl
  refine ⟨.start, ?_, ?_, ?_⟩
  · exact bind_of_error (bind_of_error (bind_of_error (faults false)))
  · exact bind_of_error (bind_of_error (bind_of_error (faults true)))
  · intro accesses
    have leads := accesses.leads
    rw [LeadsToItself, unmapped] at leads
    cases leads

end NopOS.Acpi.MemoryAccess
