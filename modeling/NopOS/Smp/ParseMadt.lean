import NopOS.Lib.LittleEndian
import NopOS.Lib.StatefulProgram

/-!
# The processors of the MADT

`parse_madt` walks through the subtables of the MADT and keeps a `cpu` for
each Local APIC which is enabled.  The cursor is counted from the start of the
table.  A load outside the table is a fault, and so is a walk which does not
end with the turns it is given.  The vector of the processors has room for
`max_ncpu` of them, and one more aborts.

A table which is tiled by subtables, with no more processors than there is room
for, is decoded as it should be.  The last section is about arbitrary tables:
the walk ends safely for such tables, and for no others.
-/

namespace NopOS.Smp.ParseMadt

open NopOS.Lib.LittleEndian
open NopOS.Lib.StatefulProgram

/-- A byte of the table. -/
abbrev Byte := BitVec 8

/-- `u32`, the numbers of the processors. -/
abbrev U32 := BitVec 32

/-- `sizeof(ACPI_TABLE_MADT)`. -/
def sizeofMadt : Nat := 44

/-- A table by its bytes.  `Header.Length` covers at least the header. -/
structure Madt where
  bytes : Nat → Byte
  coversHeader : sizeofMadt ≤ littleEndian bytes 4 4

namespace Madt

/-- `Header.Length`. -/
def length (madt : Madt) : Nat := littleEndian madt.bytes 4 4

/-! ### Fields of a subtable -/

/-- `s->Type`. -/
def type (madt : Madt) (s : Nat) : Byte := madt.bytes s

/-- `s->Length`. -/
def subtableLength (madt : Madt) (s : Nat) : Nat :=
  (madt.bytes (s + 1)).toNat

/-- `lapic->ProcessorId`. -/
def processorId (madt : Madt) (s : Nat) : Byte := madt.bytes (s + 2)

/-- `lapic->Id`. -/
def id (madt : Madt) (s : Nat) : Byte := madt.bytes (s + 3)

/-- `lapic->LapicFlags`. -/
def lapicFlags (madt : Madt) (s : Nat) : U32 :=
  BitVec.ofNat 32 (littleEndian madt.bytes (s + 4) 4)

end Madt

/-- `struct cpu`. -/
structure Cpu where
  apicId : U32
  acpiId : U32
  id : Nat
deriving DecidableEq

/-- `smp::cpus` and the local `nr_cpus`. -/
structure Cpus where
  cpus : List Cpu
  nrCpus : Nat

/-- `max_ncpu`. -/
def maxNcpu : Nat := 24

/-- How the walk can go wrong: a load at an offset outside the table, a
`push_back` which aborts in `operator new`, or no end. -/
inductive Fault where
  | outside (offset : Nat)
  | operatorNew
  | outOfFuel
deriving DecidableEq

/-- The walk, over the list it builds. -/
abbrev Exec := EStateM Fault Cpus

/-! ## The walk -/

/-- A load of bytes, all of which have to be bytes of the table. -/
def inTable (madt : Madt) (offset count : Nat) : Exec Unit :=
  if offset + count ≤ madt.length then pure ()
  else throw (.outside offset)

/-- Load `s->Type`. -/
def loadType (madt : Madt) (s : Nat) : Exec Byte := do
  inTable madt s 1
  return madt.type s

/-- Load `s->Length`. -/
def loadLength (madt : Madt) (s : Nat) : Exec Nat := do
  inTable madt (s + 1) 1
  return madt.subtableLength s

/-- Load `lapic->ProcessorId`. -/
def loadProcessorId (madt : Madt) (s : Nat) : Exec Byte := do
  inTable madt (s + 2) 1
  return madt.processorId s

/-- Load `lapic->Id`. -/
def loadId (madt : Madt) (s : Nat) : Exec Byte := do
  inTable madt (s + 3) 1
  return madt.id s

/-- Load the four bytes of `lapic->LapicFlags`. -/
def loadLapicFlags (madt : Madt) (s : Nat) : Exec U32 := do
  inTable madt (s + 4) 4
  return madt.lapicFlags s

/-- `ACPI_MADT_TYPE_LOCAL_APIC`. -/
def typeLocalApic : Byte := 0

/-- `ACPI_MADT_ENABLED`. -/
def madtEnabled : U32 := 1

/-- `nr_cpus++`. -/
def nextNumber : Exec Nat :=
  modifyGet fun smp =>
    (smp.nrCpus, { smp with nrCpus := smp.nrCpus + 1 })

/-- `cpus->push_back(c)`.  The `StackVector` has reserved `max_ncpu` elements
in its own buffer.  To grow further it asks the standard allocator, whose
`operator new` aborts. -/
def pushBack (c : Cpu) : Exec Unit := do
  let smp ← get
  if smp.cpus.length < maxNcpu then set { smp with cpus := smp.cpus ++ [c] }
  else throw .operatorNew

/-- The case `ACPI_MADT_TYPE_LOCAL_APIC`. -/
def localApic (madt : Madt) (s : Nat) : Exec Unit := do
  let flags ← loadLapicFlags madt s
  if flags &&& madtEnabled = 0 then pure ()
  else do
    let number ← nextNumber
    let apicId ← loadId madt s
    let acpiId ← loadProcessorId madt s
    pushBack
      { apicId := apicId.setWidth 32
        acpiId := acpiId.setWidth 32
        id := number }

/-- The `switch` on the type. -/
def switchType (madt : Madt) (s : Nat) : Exec Unit := do
  let type ← loadType madt s
  if type = typeLocalApic then localApic madt s else pure ()

/-- The `while` loop, which compares the cursor with the end for equality. -/
def subtableLoop (madt : Madt) : Nat → Nat → Exec Unit
  | 0, _ => throw .outOfFuel
  | fuel + 1, subtable =>
      if subtable = madt.length then pure ()
      else do
        switchType madt subtable
        let length ← loadLength madt subtable
        subtableLoop madt fuel (subtable + length)

/-- `smp::parse_madt()`, with a turn for every byte of the table. -/
def parseMadt (madt : Madt) : Exec Unit := do
  set ({ cpus := [], nrCpus := 0 } : Cpus)
  subtableLoop madt (madt.length + 1) sizeofMadt

/-- The loop of `smp_initial_find_current_cpu` from an index on. -/
def findFrom (apicId : U32) : List Cpu → Nat → Option Nat
  | [], _ => none
  | c :: later, i =>
      if c.apicId = apicId then some i else findFrom apicId later (i + 1)

/-- `smp_initial_find_current_cpu()` on the processor with the number, as the
index of the `cpu` it returns; without one it aborts. -/
def smpInitialFindCurrentCpu (smp : Cpus) (apicId : U32) : Option Nat :=
  findFrom apicId smp.cpus 0

/-! ## Subtables in a row -/

/-- An enabled Local APIC. -/
def EnabledLapic (madt : Madt) (s : Nat) : Prop :=
  madt.type s = typeLocalApic ∧ madt.lapicFlags s &&& madtEnabled ≠ 0

instance (madt : Madt) (s : Nat) : Decidable (EnabledLapic madt s) :=
  inferInstanceAs (Decidable (_ ∧ _))

/-- The `cpu` of an entry. -/
def cpuAt (madt : Madt) (s number : Nat) : Cpu where
  apicId := (madt.id s).setWidth 32
  acpiId := (madt.processorId s).setWidth 32
  id := number

/-- A `cpu` for each enabled entry, in order, numbered from 0 on. -/
def enabledCpus (madt : Madt) (offsets : List Nat) : List Cpu :=
  (offsets.filter fun s => EnabledLapic madt s).zipIdx.map fun entry =>
    cpuAt madt entry.1 entry.2

/-- The number of enabled Local APICs among subtables. -/
def enabledCount (madt : Madt) (offsets : List Nat) : Nat :=
  offsets.countP fun s => EnabledLapic madt s

/-- Subtables from an offset to the end of the table, as far as the walk is
concerned: what it loads of each of them is in the table. -/
inductive Subtables (madt : Madt) : Nat → List Nat → Prop where
  | stop : Subtables madt madt.length []
  | subtable
      {s : Nat} {later : List Nat}
      (header : s + 2 ≤ madt.length)
      (moves : madt.subtableLength s ≠ 0)
      (lapic : madt.type s = typeLocalApic → s + 8 ≤ madt.length)
      (further : Subtables madt (s + madt.subtableLength s) later) :
      Subtables madt s (s :: later)

/-- The area from an offset on is exactly tiled by subtables. -/
inductive Tiled (madt : Madt) : Nat → List Nat → Prop where
  | stop : Tiled madt madt.length []
  | subtable
      {s : Nat} {later : List Nat}
      (header : s + 2 ≤ madt.length)
      (nonzero : madt.subtableLength s ≠ 0)
      (lapic :
        madt.type s = typeLocalApic → 8 ≤ madt.subtableLength s)
      (further : Tiled madt (s + madt.subtableLength s) later) :
      Tiled madt s (s :: later)

theorem Subtables.length_le
    {madt : Madt} {s : Nat} {offsets : List Nat}
    (subtables : Subtables madt s offsets) :
    s + offsets.length ≤ madt.length := by
  induction subtables with
  | stop => exact Nat.le_refl _
  | subtable header moves lapic further induction =>
      rw [List.length_cons]
      omega

theorem Tiled.le_length
    {madt : Madt} {s : Nat} {offsets : List Nat}
    (tiled : Tiled madt s offsets) : s ≤ madt.length := by
  cases tiled with
  | stop => exact Nat.le_refl _
  | subtable header nonzero lapic further => omega

theorem Tiled.subtables
    {madt : Madt} {s : Nat} {offsets : List Nat}
    (tiled : Tiled madt s offsets) : Subtables madt s offsets := by
  induction tiled with
  | stop => exact .stop
  | subtable header nonzero lapic further induction =>
      refine .subtable header nonzero ?_ induction
      intro isLapic
      have long := lapic isLapic
      have inside := further.le_length
      omega

/-! ## One subtable -/

section Turn

variable {madt : Madt} {s : Nat}

theorem inTable_run
    {offset count : Nat} (inside : offset + count ≤ madt.length)
    (smp : Cpus) : inTable madt offset count smp = .ok () smp := by
  rw [inTable, if_pos inside]
  rfl

/-- What a subtable adds to the list. -/
def addSubtable (madt : Madt) (smp : Cpus) (s : Nat) : Cpus :=
  if EnabledLapic madt s then
    { cpus := smp.cpus ++ [cpuAt madt s smp.nrCpus]
      nrCpus := smp.nrCpus + 1 }
  else smp

/-- The length of the list after a subtable. -/
theorem length_addSubtable (madt : Madt) (smp : Cpus) (s : Nat) :
    (addSubtable madt smp s).cpus.length =
      smp.cpus.length + if EnabledLapic madt s then 1 else 0 := by
  rw [addSubtable]
  by_cases enabled : EnabledLapic madt s
  · rw [if_pos enabled, if_pos enabled, List.length_append,
      List.length_singleton]
  · rw [if_neg enabled, if_neg enabled, Nat.add_zero]

/-- There is room in the list for what the subtable adds. -/
def Room (madt : Madt) (smp : Cpus) (s : Nat) : Prop :=
  EnabledLapic madt s → smp.cpus.length < maxNcpu

/-- A Local APIC inside the table is added to the list, or `push_back`
aborts. -/
theorem localApic_eq
    (isLapic : madt.type s = typeLocalApic)
    (inside : s + 8 ≤ madt.length) (smp : Cpus) :
    localApic madt s smp =
      if EnabledLapic madt s then
        pushBack (cpuAt madt s smp.nrCpus)
          { smp with nrCpus := smp.nrCpus + 1 }
      else .ok () smp := by
  have flags : loadLapicFlags madt s smp = .ok (madt.lapicFlags s) smp := by
    rw [loadLapicFlags, bind_of_ok (inTable_run (by omega) smp)]
    rfl
  have number :
      nextNumber smp =
        .ok smp.nrCpus { smp with nrCpus := smp.nrCpus + 1 } := rfl
  have apicId (smp : Cpus) : loadId madt s smp = .ok (madt.id s) smp := by
    rw [loadId, bind_of_ok (inTable_run (by omega) smp)]
    rfl
  have acpiId (smp : Cpus) :
      loadProcessorId madt s smp = .ok (madt.processorId s) smp := by
    rw [loadProcessorId, bind_of_ok (inTable_run (by omega) smp)]
    rfl
  rw [localApic, bind_of_ok flags]
  by_cases disabled : madt.lapicFlags s &&& madtEnabled = 0
  · rw [if_pos disabled, if_neg fun enabled => enabled.2 disabled]
    rfl
  · rw [if_neg disabled, if_pos ⟨isLapic, disabled⟩, bind_of_ok number,
      bind_of_ok (apicId _), bind_of_ok (acpiId _)]
    rfl

/-- `localApic` appends an enabled processor for which there is room. -/
theorem localApic_run
    (isLapic : madt.type s = typeLocalApic)
    (inside : s + 8 ≤ madt.length)
    {smp : Cpus} (room : Room madt smp s) :
    localApic madt s smp = .ok () (addSubtable madt smp s) := by
  rw [localApic_eq isLapic inside, addSubtable]
  by_cases enabled : EnabledLapic madt s
  · rw [if_pos enabled, if_pos enabled, pushBack, bind_of_ok (get_run _),
      if_pos (room enabled)]
    rfl
  · rw [if_neg enabled, if_neg enabled]

/-- A Local APIC which is added finds room in the list. -/
theorem localApic_room
    (isLapic : madt.type s = typeLocalApic)
    (inside : s + 8 ≤ madt.length)
    {smp after : Cpus} (returns : localApic madt s smp = .ok () after) :
    Room madt smp s := by
  intro enabled
  by_contra full
  rw [localApic_eq isLapic inside, if_pos enabled, pushBack,
    bind_of_ok (get_run _), if_neg full] at returns
  cases returns

/-- A subtable adds what its type says. -/
theorem switchType_run
    (header : s + 2 ≤ madt.length)
    (lapic : madt.type s = typeLocalApic → s + 8 ≤ madt.length)
    {smp : Cpus} (room : Room madt smp s) :
    switchType madt s smp = .ok () (addSubtable madt smp s) := by
  have type : loadType madt s smp = .ok (madt.type s) smp := by
    rw [loadType, bind_of_ok (inTable_run (by omega) smp)]
    rfl
  rw [switchType, bind_of_ok type]
  by_cases isLapic : madt.type s = typeLocalApic
  · rw [if_pos isLapic, localApic_run isLapic (lapic isLapic) room]
  · rw [if_neg isLapic, addSubtable,
      if_neg fun enabled => isLapic enabled.1]
    rfl

/-- A turn of the loop inside the table. -/
theorem subtableLoop_turn
    (fuel : Nat) (header : s + 2 ≤ madt.length)
    (lapic : madt.type s = typeLocalApic → s + 8 ≤ madt.length)
    {smp : Cpus} (room : Room madt smp s) :
    subtableLoop madt (fuel + 1) s smp =
      subtableLoop madt fuel (s + madt.subtableLength s)
        (addSubtable madt smp s) := by
  have length :
      loadLength madt s (addSubtable madt smp s) =
        .ok (madt.subtableLength s) (addSubtable madt smp s) := by
    rw [loadLength, bind_of_ok (inTable_run (by omega) _)]
    rfl
  rw [subtableLoop, if_neg (by omega),
    bind_of_ok (switchType_run header lapic room), bind_of_ok length]

end Turn

/-! ## The whole walk -/

/-- Each enabled Local APIC counts once. -/
theorem enabledCount_cons (madt : Madt) (s : Nat) (offsets : List Nat) :
    enabledCount madt (s :: offsets) =
      enabledCount madt offsets + if EnabledLapic madt s then 1 else 0 := by
  rw [enabledCount, List.countP_cons, enabledCount]
  congr 1
  exact if_congr decide_eq_true_iff rfl rfl

/-- Over subtables in a row the loop ends and takes each into account, if there
is room for all of them. -/
theorem subtableLoop_run
    {madt : Madt} {s : Nat} {offsets : List Nat}
    (subtables : Subtables madt s offsets) (fuel : Nat)
    (enough : offsets.length < fuel) {smp : Cpus}
    (room : smp.cpus.length + enabledCount madt offsets ≤ maxNcpu) :
    subtableLoop madt fuel s smp =
      .ok () (offsets.foldl (addSubtable madt) smp) := by
  induction subtables generalizing fuel smp with
  | stop =>
      rcases Nat.exists_eq_succ_of_ne_zero (Nat.ne_of_gt enough) with
        ⟨fuel, rfl⟩
      rw [subtableLoop, if_pos rfl]
      rfl
  | @subtable s later header moves lapic further induction =>
      rcases Nat.exists_eq_succ_of_ne_zero (Nat.ne_zero_of_lt enough) with
        ⟨fuel, rfl⟩
      rw [List.length_cons] at enough
      rw [enabledCount_cons] at room
      have roomHere : Room madt smp s := by
        intro enabled
        rw [if_pos enabled] at room
        omega
      rw [subtableLoop_turn fuel header lapic roomHere,
        induction fuel (by omega) (by rw [length_addSubtable]; omega)]
      rfl

/-- The entries are numbered as they are added. -/
theorem foldl_addSubtable
    (madt : Madt) (offsets : List Nat) (smp : Cpus) :
    (offsets.foldl (addSubtable madt) smp).cpus =
      smp.cpus ++
        ((offsets.filter fun s => EnabledLapic madt s).zipIdx
          smp.nrCpus).map fun entry => cpuAt madt entry.1 entry.2 := by
  induction offsets generalizing smp with
  | nil => simp
  | cons s offsets induction =>
      rw [List.foldl_cons, induction, addSubtable]
      by_cases enabled : EnabledLapic madt s
      · have kept :
            (s :: offsets).filter (fun s => EnabledLapic madt s) =
              s :: offsets.filter fun s => EnabledLapic madt s :=
          List.filter_cons_of_pos (by simpa using enabled)
        rw [if_pos enabled, kept, List.zipIdx_cons, List.map_cons,
          List.append_assoc]
        rfl
      · rw [if_neg enabled, List.filter_cons_of_neg (by simpa using enabled)]

/-- Whole subtables with few enough processors are parsed to the end. -/
theorem parseMadt_run
    {madt : Madt} {offsets : List Nat}
    (subtables : Subtables madt sizeofMadt offsets)
    (few : enabledCount madt offsets ≤ maxNcpu) (before : Cpus) :
    ∃ after,
      parseMadt madt before = .ok () after ∧
        after.cpus = enabledCpus madt offsets := by
  have short := subtables.length_le
  refine ⟨_, subtableLoop_run subtables _ ?_ ?_, ?_⟩
  · omega
  · exact (Nat.zero_add _).trans_le few
  · exact foldl_addSubtable madt offsets ⟨[], 0⟩

/-! ## The processor which runs -/

/-- The search returns the first `cpu` with the number. -/
theorem findFrom_first
    (apicId : U32) (cpus : List Cpu) (i : Nat)
    (present : ∃ c ∈ cpus, c.apicId = apicId) :
    ∃ k c,
      findFrom apicId cpus i = some (i + k) ∧ cpus[k]? = some c ∧
        c.apicId = apicId ∧
        ∀ j < k, ∀ earlier, cpus[j]? = some earlier →
          earlier.apicId ≠ apicId := by
  induction cpus generalizing i with
  | nil =>
      rcases present with ⟨c, member, -⟩
      cases member
  | cons first cpus induction =>
      rw [findFrom]
      by_cases found : first.apicId = apicId
      · refine ⟨0, first, if_pos found, rfl, found, ?_⟩
        intro j below
        omega
      · have later : ∃ c ∈ cpus, c.apicId = apicId := by
          rcases present with ⟨c, member, same⟩
          rcases List.mem_cons.1 member with rfl | member
          · exact absurd same found
          · exact ⟨c, member, same⟩
        rcases induction (i + 1) later with ⟨k, c, finds, atK, same, before⟩
        refine ⟨k + 1, c, ?_, atK, same, ?_⟩
        · rw [if_neg found, finds]
          congr 1
          omega
        · intro j below earlier atJ
          cases j with
          | zero =>
              cases atJ
              exact found
          | succ j => exact before j (by omega) earlier atJ

/-- Every enabled entry is found among the processors. -/
theorem mem_enabledCpus
    {madt : Madt} {offsets : List Nat} {s : Nat}
    (member : s ∈ offsets) (enabled : EnabledLapic madt s) :
    ∃ c ∈ enabledCpus madt offsets, c.apicId = (madt.id s).setWidth 32 := by
  have kept : s ∈ offsets.filter fun s => EnabledLapic madt s :=
    List.mem_filter.2 ⟨member, decide_eq_true enabled⟩
  rcases List.getElem_of_mem kept with ⟨k, inside, atK⟩
  refine ⟨cpuAt madt s k, ?_, rfl⟩
  refine List.mem_map.2 ⟨(s, k), ?_, rfl⟩
  rw [List.mem_zipIdx_iff_getElem?, List.getElem?_eq_getElem inside, atK]

/-- A well-formed table with at most `max_ncpu` enabled processors is decoded,
and each of them finds the first `cpu` with its number. -/
theorem parse_madt_decodes
    {madt : Madt} {offsets : List Nat}
    (tiled : Tiled madt sizeofMadt offsets)
    (few : enabledCount madt offsets ≤ maxNcpu) (before : Cpus) :
    ∃ after,
      parseMadt madt before = .ok () after ∧
        after.cpus = enabledCpus madt offsets ∧
        ∀ s ∈ offsets, EnabledLapic madt s →
          ∃ k c,
            smpInitialFindCurrentCpu after ((madt.id s).setWidth 32) =
                some k ∧
              after.cpus[k]? = some c ∧
              c.apicId = (madt.id s).setWidth 32 ∧
              ∀ j < k, ∀ earlier, after.cpus[j]? = some earlier →
                earlier.apicId ≠ (madt.id s).setWidth 32 := by
  rcases parseMadt_run tiled.subtables few before with
    ⟨after, returns, cpusEq⟩
  refine ⟨after, returns, cpusEq, ?_⟩
  intro s member enabled
  have present := mem_enabledCpus member enabled
  rw [← cpusEq] at present
  rcases findFrom_first _ after.cpus 0 present with
    ⟨k, c, finds, atK, same, earlier⟩
  rw [Nat.zero_add] at finds
  exact ⟨k, c, finds, atK, same, earlier⟩

/-- A row of bytes as a table. -/
def bytesOf (row : List Byte) : Nat → Byte := fun offset =>
  row.getD offset 0

/-- A header of 44 bytes, an NMI entry and two enabled Local APICs around a
disabled one. -/
def sampleMadt : Madt where
  bytes :=
    bytesOf
      ([0x41, 0x50, 0x49, 0x43, 74] ++ List.replicate 39 0 ++
        [4, 6, 0, 0, 0, 1] ++ [0, 8, 7, 2, 1, 0, 0, 0] ++
          [0, 8, 8, 3, 0, 0, 0, 0] ++ [0, 8, 9, 4, 1, 0, 0, 0])
  coversHeader := by decide

/-- A table of three processors, one of which is disabled. -/
theorem parse_madt_decodes_sample :
    ∃ after,
      parseMadt sampleMadt ⟨[], 0⟩ = .ok () after ∧
        after.cpus = [⟨2, 7, 0⟩, ⟨4, 9, 1⟩] := by
  have tiled : Tiled sampleMadt sizeofMadt [44, 50, 58, 66] :=
    .subtable (by decide) (by decide) (by decide)
      (.subtable (by decide) (by decide) (by decide)
        (.subtable (by decide) (by decide) (by decide)
          (.subtable (by decide) (by decide) (by decide) .stop)))
  rcases parse_madt_decodes tiled (by decide) ⟨[], 0⟩ with
    ⟨after, returns, cpusEq, -⟩
  refine ⟨after, returns, cpusEq.trans ?_⟩
  decide

/-! ## Tables of any kind -/

/-- A read that returns lies in the table. -/
theorem inTable_ok
    {madt : Madt} {offset count : Nat} {smp after : Cpus}
    (returns : inTable madt offset count smp = .ok () after) :
    offset + count ≤ madt.length := by
  by_contra outside
  rw [inTable, if_neg outside] at returns
  cases returns

/-- A turn which did not fault loaded bytes of the table only, and found room
for what it added. -/
theorem switchType_ok
    {madt : Madt} {s : Nat} {smp after : Cpus}
    (returns : switchType madt s smp = .ok () after) :
    (madt.type s = typeLocalApic → s + 8 ≤ madt.length) ∧
      Room madt smp s := by
  rcases ok_of_bind returns with ⟨type, middle, loads, rest⟩
  rcases ok_of_bind loads with ⟨_, _, loadsType, sameType⟩
  have same := inTable_ok loadsType
  cases sameType
  by_cases isLapic : madt.type s = typeLocalApic
  · rw [if_pos isLapic] at rest
    have flagsInside : s + 8 ≤ madt.length := by
      rcases ok_of_bind rest with ⟨flags, _, loadsFlags, -⟩
      rcases ok_of_bind loadsFlags with ⟨_, _, inside, -⟩
      have below := inTable_ok inside
      omega
    rw [inTable_run same] at loadsType
    cases loadsType
    exact ⟨fun _ => flagsInside, localApic_room isLapic flagsInside rest⟩
  · exact
      ⟨fun lapic => absurd lapic isLapic,
        fun enabled => absurd enabled.1 isLapic⟩

/-- A loop which ended went over subtables in a row, with room for all of
them. -/
theorem subtables_of_ok
    {madt : Madt} (fuel : Nat) {s : Nat} {smp after : Cpus}
    (returns : subtableLoop madt fuel s smp = .ok () after)
    (room : smp.cpus.length ≤ maxNcpu) :
    ∃ offsets,
      Subtables madt s offsets ∧
        smp.cpus.length + enabledCount madt offsets ≤ maxNcpu := by
  induction fuel generalizing s smp with
  | zero => cases returns
  | succ fuel induction =>
      by_cases atEnd : s = madt.length
      · rw [atEnd]
        exact ⟨[], .stop, room⟩
      · rw [subtableLoop, if_neg atEnd] at returns
        rcases ok_of_bind returns with ⟨_, middle, switches, rest⟩
        rcases ok_of_bind rest with ⟨length, last, loads, later⟩
        rcases ok_of_bind loads with ⟨_, _, inside, sameLength⟩
        have header := inTable_ok inside
        rw [inTable_run header] at inside
        cases inside
        cases sameLength
        rcases switchType_ok switches with ⟨lapic, roomHere⟩
        rw [switchType_run (by omega) lapic roomHere] at switches
        cases switches
        have grown := length_addSubtable madt smp s
        have roomLater :
            (addSubtable madt smp s).cpus.length ≤ maxNcpu := by
          rw [grown]
          split
          · exact roomHere ‹_›
          · exact room
        rcases induction later roomLater with ⟨offsets, further, roomAll⟩
        by_cases stays : madt.subtableLength s = 0
        · -- the next turn starts here again
          rw [stays, Nat.add_zero] at further
          exact ⟨offsets, further, by omega⟩
        · refine ⟨s :: offsets, .subtable header stays lapic further, ?_⟩
          rw [enabledCount_cons]
          omega

/-- The loop of `parse_madt` ends, without a load outside the table, exactly if
the table is a row of subtables up to its very end which enable at most
`max_ncpu` processors. -/
theorem parse_madt_robust_iff (madt : Madt) :
    (∃ fuel after,
        subtableLoop madt fuel sizeofMadt ⟨[], 0⟩ = .ok () after) ↔
      ∃ offsets,
        Subtables madt sizeofMadt offsets ∧
          enabledCount madt offsets ≤ maxNcpu := by
  constructor
  · rintro ⟨fuel, after, returns⟩
    rcases subtables_of_ok fuel returns (Nat.zero_le _) with
      ⟨offsets, subtables, room⟩
    exact ⟨offsets, subtables, (Nat.zero_add _).symm.trans_le room⟩
  · rintro ⟨offsets, subtables, few⟩
    exact
      ⟨offsets.length + 1, _,
        subtableLoop_run subtables _ (Nat.lt_succ_self _)
          ((Nat.zero_add _).trans_le few)⟩

/-- A table whose only subtable has the length 0. -/
def stuckMadt : Madt where
  bytes := bytesOf ([0x41, 0x50, 0x49, 0x43, 46] ++ List.replicate 41 0)
  coversHeader := by decide

/-- A subtable of length zero is read again and again. -/
theorem stuck_madt_never_ends :
    ¬ ∃ fuel after,
        subtableLoop stuckMadt fuel sizeofMadt ⟨[], 0⟩ = .ok () after := by
  rintro ⟨fuel, after, returns⟩
  rcases subtables_of_ok fuel returns (Nat.zero_le _) with
    ⟨offsets, subtables, -⟩
  have moves :
      ∀ s, Subtables stuckMadt s offsets → s = sizeofMadt → False := by
    intro s row same
    cases row with
    | stop => exact absurd same (by decide)
    | subtable header moves lapic further =>
        rw [same] at moves
        exact absurd moves (by decide)
  exact moves _ subtables rfl

end NopOS.Smp.ParseMadt
