import Mathlib.Data.List.InsertIdx
import NopOS.Smp.ApicDriver
import NopOS.Smp.ParseMadt

/-!
# Starting the application processors

`smp::launch` goes through the processors of the MADT and sends INIT and twice
STARTUP to each of them but the one it runs on.  A processor which is reset by
INIT waits for the first STARTUP, which gives it the page to start at, and
ignores later ones.
-/

namespace NopOS.Smp.Launch

open NopOS.Smp.ApicDriver
open NopOS.Smp.ParseMadt hiding U32

/-! ## The loop of `launch` -/

/-- INIT, SIPI, SIPI. -/
def startOperations (apicId : U32) : List Operation :=
  [.initIpi apicId 0x4500, .initIpi apicId 0x4600, .initIpi apicId 0x4600]

/-- The `for` loop from an index on, where `bootCpu` is the index of
`boot_cpu`. -/
def launchFrom (bootCpu : Nat) : List ParseMadt.Cpu → Nat → List Operation
  | [], _ => []
  | c :: later, i =>
      if i = bootCpu then launchFrom bootCpu later (i + 1)
      else startOperations c.apicId ++ launchFrom bootCpu later (i + 1)

/-- What `launch` asks of the driver on the processor with the number; it
aborts if that processor is not in the table. -/
def launch (smp : Cpus) (apicId : U32) : Option (List Operation) :=
  (smpInitialFindCurrentCpu smp apicId).map fun bootCpu =>
    launchFrom bootCpu smp.cpus 0

/-- The choice of `create_apic_driver`. -/
inductive Driver where
  | xapic
  | x2apic
deriving DecidableEq

/-- The writes of an operation with the driver. -/
def Driver.perform : Driver → Operation → List Write
  | .xapic => Xapic.perform
  | .x2apic => X2apic.perform

/-! ## The processors -/

/-- What a processor does: it runs, waits after INIT, or runs from the page of
a STARTUP. -/
inductive Activity where
  | running
  | waitForSipi
  | startedAt (page : BitVec 8)
deriving DecidableEq

/-- A processor, with the number of times it was started. -/
structure Core where
  activity : Activity
  starts : Nat
deriving DecidableEq

/-- Delivery mode 5 is INIT, and 6 is STARTUP with the page as its vector. -/
def Core.receive (core : Core) (mode : BitVec 3) (vector : BitVec 8) : Core :=
  if mode = 5 then { core with activity := .waitForSipi }
  else if mode = 6 then
    match core.activity with
    | .waitForSipi =>
        { activity := .startedAt vector, starts := core.starts + 1 }
    | _ => core
  else core

/-- The processors by their APIC numbers. -/
abbrev Cores := U32 → Core

/-- A delivery reaches its recipients and no other processor. -/
def receiveAll (cores : Cores) (delivery : Delivery) : Cores := fun apicId =>
  if apicId ∈ delivery.recipients then
    (cores apicId).receive delivery.mode delivery.vector
  else cores apicId

/-- The processors after the writes of one of them. -/
def afterWrites
    (cpus : Finset U32) (sender icr2 : U32) (writes : List Write)
    (cores : Cores) : Cores :=
  (deliveries cpus sender icr2 writes).foldl receiveAll cores

/-! ## One processor is started -/

variable {cpus : Finset U32} {sender : U32} {cores : Cores}

/-- The commands of a start reach the one processor. -/
theorem deliveries_initIpi
    (driver : Driver) {icr2 apicId vector : U32}
    (fits : apicId.toNat < 256)
    (notAll : driver = .xapic → apicId ≠ 0xFF) :
    deliveries cpus sender icr2 (driver.perform (.initIpi apicId vector)) =
      [command cpus sender 0xFFFFFFFF apicId vector] := by
  cases driver with
  | xapic =>
      have small : apicId.toNat < 255 := by
        have different := notAll rfl
        have apart : apicId.toNat ≠ 255 := by
          intro same
          exact different (BitVec.eq_of_toNat_eq same)
        omega
      exact (initIpi_agree icr2 small vector).trans (x2apic_initIpi _ _ _)
  | x2apic => exact x2apic_initIpi _ _ _

/-- What `ICR2` holds after the writes. -/
def icr2After : U32 → List Write → U32
  | icr2, [] => icr2
  | icr2, .mmio register value :: later =>
      icr2After (if register.offset = 0x310 then value else icr2) later
  | icr2, .wrmsr _ _ :: later => icr2After icr2 later

/-- Writes deliver one after another. -/
theorem deliveries_append (icr2 : U32) (first second : List Write) :
    deliveries cpus sender icr2 (first ++ second) =
      deliveries cpus sender icr2 first ++
        deliveries cpus sender (icr2After icr2 first) second := by
  induction first generalizing icr2 with
  | nil => rfl
  | cons write first induction =>
      cases write with
      | mmio register value =>
          rw [List.cons_append, deliveries, deliveries, icr2After]
          split
          · exact induction value
          · split
            · rw [induction, List.cons_append]
            · exact induction icr2
      | wrmsr register value =>
          rw [List.cons_append, deliveries, deliveries, icr2After]
          split
          · rw [induction, List.cons_append]
          · split
            · rw [induction, List.cons_append]
            · exact induction icr2

/-- And the processors receive them one after another. -/
theorem afterWrites_append
    (icr2 : U32) (first second : List Write) :
    afterWrites cpus sender icr2 (first ++ second) cores =
      afterWrites cpus sender (icr2After icr2 first) second
        (afterWrites cpus sender icr2 first cores) := by
  rw [afterWrites, deliveries_append, List.foldl_append]
  rfl

/-- The processors after one of them was started. -/
def startedCores (cpus : Finset U32) (apicId : U32) (cores : Cores) : Cores :=
  fun other =>
    if other ∈ cpus ∧ other = apicId then
      { activity := .startedAt 0, starts := (cores other).starts + 1 }
    else cores other

/-- A command without a shorthand, by its fields. -/
theorem command_unicast_eq
    {apicId low : U32} (unicast : apicId ≠ 0xFFFFFFFF)
    (noShorthand : low.extractLsb' 18 2 = 0) :
    command cpus sender 0xFFFFFFFF apicId low =
      ⟨low.extractLsb' 8 3, low.extractLsb' 0 8,
        cpus.filter (· = apicId)⟩ := by
  rw [command, noShorthand]
  simp only [recipients, if_neg unicast]
  rfl

/-- A delivery to one processor changes that one. -/
theorem receiveAll_unicast
    (mode : BitVec 3) (vector : BitVec 8) (apicId other : U32) :
    receiveAll cores ⟨mode, vector, cpus.filter (· = apicId)⟩ other =
      if other ∈ cpus ∧ other = apicId then
        (cores other).receive mode vector
      else cores other := by
  rw [receiveAll]
  simp only [Finset.mem_filter]

/-- INIT and two times STARTUP start a processor once. -/
theorem receive_start (core : Core) :
    ((core.receive 5 0).receive 6 0).receive 6 0 =
      { activity := .startedAt 0, starts := core.starts + 1 } :=
  rfl

/-- The operations of the launch start one processor. -/
theorem afterWrites_start
    (driver : Driver) (icr2 : U32) {apicId : U32}
    (fits : apicId.toNat < 256)
    (notAll : driver = .xapic → apicId ≠ 0xFF) :
    afterWrites cpus sender icr2
        ((startOperations apicId).flatMap driver.perform) cores =
      startedCores cpus apicId cores := by
  have unicast : apicId ≠ 0xFFFFFFFF := by
    rintro rfl
    exact absurd fits (by decide)
  have init (icr2 vector : U32) :
      deliveries cpus sender icr2 (driver.perform (.initIpi apicId vector)) =
        [command cpus sender 0xFFFFFFFF apicId vector] :=
    deliveries_initIpi driver fits notAll
  rw [startOperations, List.flatMap_cons, List.flatMap_cons,
    List.flatMap_cons, List.flatMap_nil, List.append_nil, afterWrites,
    deliveries_append, deliveries_append, init, init, init,
    command_unicast_eq unicast (by decide),
    command_unicast_eq unicast (by decide)]
  funext other
  change
    receiveAll
        (receiveAll
          (receiveAll cores ⟨5, 0, cpus.filter (· = apicId)⟩)
          ⟨6, 0, cpus.filter (· = apicId)⟩)
        ⟨6, 0, cpus.filter (· = apicId)⟩ other =
      _
  rw [receiveAll_unicast, receiveAll_unicast, receiveAll_unicast,
    startedCores]
  by_cases reached : other ∈ cpus ∧ other = apicId
  · simp only [if_pos reached]
    exact receive_start (cores other)
  · simp only [if_neg reached]

/-! ## All processors are started -/

/-- The loop after the processor it leaves out. -/
theorem launchFrom_of_lt
    {bootCpu i : Nat} (passed : bootCpu < i) (cpus : List ParseMadt.Cpu) :
    launchFrom bootCpu cpus i =
      cpus.flatMap fun c => startOperations c.apicId := by
  induction cpus generalizing i with
  | nil => rfl
  | cons c later induction =>
      rw [launchFrom, if_neg (by omega),
        induction (Nat.lt_succ_of_lt passed), List.flatMap_cons]

/-- The loop leaves out one processor. -/
theorem launchFrom_eq
    (cpus : List ParseMadt.Cpu) (i k : Nat) :
    launchFrom (i + k) cpus i =
      (cpus.eraseIdx k).flatMap fun c => startOperations c.apicId := by
  induction cpus generalizing i k with
  | nil => rfl
  | cons c later induction =>
      rw [launchFrom]
      cases k with
      | zero =>
          rw [if_pos (Nat.add_zero i).symm, List.eraseIdx_cons_zero]
          exact launchFrom_of_lt (Nat.lt_succ_self _) later
      | succ k =>
          have next : i + (k + 1) = i + 1 + k := by omega
          rw [if_neg (by omega), next, induction, List.eraseIdx_cons_succ,
            List.flatMap_cons]

/-- Each of the processors is started once, if their numbers differ. -/
theorem afterWrites_starts
    (driver : Driver) (icr2 : U32) {ids : List U32}
    (distinct : ids.Nodup)
    (fits : ∀ apicId ∈ ids, apicId.toNat < 256)
    (notAll : driver = .xapic → ∀ apicId ∈ ids, apicId ≠ 0xFF)
    (other : U32) :
    afterWrites cpus sender icr2
        ((ids.flatMap startOperations).flatMap driver.perform) cores other =
      if other ∈ cpus ∧ other ∈ ids then
        { activity := .startedAt 0, starts := (cores other).starts + 1 }
      else cores other := by
  induction ids generalizing icr2 cores with
  | nil =>
      rw [if_neg fun reached => List.not_mem_nil reached.2]
      rfl
  | cons apicId ids induction =>
      rw [List.nodup_cons] at distinct
      have firstFits := fits apicId List.mem_cons_self
      have firstNotAll (xapic : driver = .xapic) : apicId ≠ 0xFF :=
        notAll xapic apicId List.mem_cons_self
      rw [List.flatMap_cons, List.flatMap_append, afterWrites_append,
        afterWrites_start driver icr2 firstFits firstNotAll,
        induction _ distinct.2
          (fun later inside => fits later (List.mem_cons_of_mem _ inside))
          (fun xapic later inside =>
            notAll xapic later (List.mem_cons_of_mem _ inside))]
      by_cases first : other = apicId
      · subst first
        rw [if_neg fun reached => distinct.1 reached.2]
        simp only [startedCores, List.mem_cons, true_or, and_true]
      · simp only [startedCores, List.mem_cons, first, false_or, and_false,
          if_false]

/-- Without the processor at an index, all other numbers are there. -/
theorem mem_eraseIdx
    {ids : List U32} (distinct : ids.Nodup)
    {k : Nat} (atK : ids[k]? = some sender)
    (other : U32) :
    other ∈ ids.eraseIdx k ↔ other ∈ ids ∧ other ≠ sender := by
  rw [List.mem_eraseIdx_iff_getElem?]
  rcases List.getElem?_eq_some_iff.mp atK with ⟨inside, here⟩
  constructor
  · rintro ⟨i, different, atI⟩
    refine ⟨List.mem_of_getElem? atI, ?_⟩
    rintro rfl
    rcases List.getElem?_eq_some_iff.mp atI with ⟨below, there⟩
    exact
      different ((distinct.getElem_inj_iff).mp (there.trans here.symm))
  · rintro ⟨member, different⟩
    rcases List.getElem?_of_mem member with ⟨i, atI⟩
    refine ⟨i, ?_, atI⟩
    rintro rfl
    rw [atK] at atI
    exact different (Option.some.inj atI).symm

/-- The ids that are launched are those of the enabled entries. -/
theorem mem_apicIds
    {madt : Madt} {offsets : List Nat} {other : U32} :
    other ∈ (enabledCpus madt offsets).map ParseMadt.Cpu.apicId ↔
      ∃ s ∈ offsets,
        EnabledLapic madt s ∧ other = (madt.id s).setWidth 32 := by
  rw [List.mem_map]
  constructor
  · rintro ⟨c, member, rfl⟩
    rcases List.mem_map.mp member with ⟨⟨s, number⟩, numbered, rfl⟩
    have kept := List.mem_filter.mp (List.fst_mem_of_mem_zipIdx numbered)
    exact ⟨s, kept.1, of_decide_eq_true kept.2, rfl⟩
  · rintro ⟨s, member, enabled, rfl⟩
    exact mem_enabledCpus member enabled

/-- An id of the table has eight bits. -/
theorem toNat_apicId_lt (id : ParseMadt.Byte) :
    (id.setWidth 32 : U32).toNat < 256 := by
  rw [BitVec.toNat_setWidth]
  exact (Nat.mod_le _ _).trans_lt id.isLt

/-- An id which is not the broadcast id of the xAPIC is not read as it. -/
theorem apicId_ne_broadcast
    {id : ParseMadt.Byte}
    (single : id ≠ 0xFF) : (id.setWidth 32 : U32) ≠ 0xFF := by
  intro broadcast
  apply single
  have value := congrArg BitVec.toNat broadcast
  rw [BitVec.toNat_setWidth] at value
  have byte := id.isLt
  apply BitVec.eq_of_toNat_eq
  change id.toNat % 2 ^ 32 = 255 at value
  change id.toNat = 255
  omega

/-- From a well-formed table with at most `max_ncpu` processors, all with
different numbers, all of them are started once at the page of the trampoline,
but the one which runs; no other processor notices. -/
theorem launch_starts_all
    {madt : Madt} {offsets : List Nat}
    (tiled : Tiled madt sizeofMadt offsets)
    (few : enabledCount madt offsets ≤ maxNcpu)
    (distinct : ((enabledCpus madt offsets).map ParseMadt.Cpu.apicId).Nodup)
    (present :
      ∃ s ∈ offsets,
        EnabledLapic madt s ∧ sender = (madt.id s).setWidth 32)
    (driver : Driver)
    (notAll :
      driver = .xapic →
        ∀ s ∈ offsets, EnabledLapic madt s → madt.id s ≠ 0xFF)
    (before : Cpus) (cpus : Finset U32) (icr2 : U32) (cores : Cores) :
    ∃ smp operations,
      parseMadt madt before = .ok () smp ∧
        launch smp sender = some operations ∧
        ∀ other,
          afterWrites cpus sender icr2 (operations.flatMap driver.perform)
              cores other =
            if other ∈ cpus ∧ other ≠ sender ∧
                ∃ s ∈ offsets,
                  EnabledLapic madt s ∧ other = (madt.id s).setWidth 32 then
              { activity := .startedAt 0, starts := (cores other).starts + 1 }
            else cores other := by
  rcases parseMadt_run tiled.subtables few before with
    ⟨smp, parses, cpusEq⟩
  have here :
      ∃ c ∈ smp.cpus, c.apicId = sender := by
    rcases present with ⟨s, member, enabled, rfl⟩
    rw [cpusEq]
    exact mem_enabledCpus member enabled
  rcases findFrom_first sender smp.cpus 0 here with
    ⟨k, c, finds, atK, same, -⟩
  rw [Nat.zero_add] at finds
  have ids (apicId : U32)
      (member : apicId ∈ (smp.cpus.map ParseMadt.Cpu.apicId).eraseIdx k) :
      ∃ s ∈ offsets,
        EnabledLapic madt s ∧ apicId = (madt.id s).setWidth 32 := by
    rw [cpusEq] at member
    exact mem_apicIds.mp (List.mem_of_mem_eraseIdx member)
  rw [← cpusEq] at distinct
  have atSender :
      (smp.cpus.map ParseMadt.Cpu.apicId)[k]? = some sender := by
    rw [List.getElem?_map, atK, ← same]
    rfl
  have operations :
      launchFrom k smp.cpus 0 =
        ((smp.cpus.map ParseMadt.Cpu.apicId).eraseIdx k).flatMap
          startOperations := by
    have loop := launchFrom_eq smp.cpus 0 k
    rw [Nat.zero_add] at loop
    rw [loop, List.eraseIdx_map, List.flatMap_map]
  refine ⟨smp, launchFrom k smp.cpus 0, parses, ?_, ?_⟩
  · rw [launch, smpInitialFindCurrentCpu, finds]
    rfl
  intro other
  have small :
      ∀ apicId ∈ (smp.cpus.map ParseMadt.Cpu.apicId).eraseIdx k,
        apicId.toNat < 256 := by
    intro apicId member
    rcases ids apicId member with ⟨s, -, -, rfl⟩
    exact toNat_apicId_lt (madt.id s)
  have noBroadcast :
      driver = .xapic →
        ∀ apicId ∈ (smp.cpus.map ParseMadt.Cpu.apicId).eraseIdx k,
          apicId ≠ 0xFF := by
    intro xapic apicId member
    rcases ids apicId member with ⟨s, inTable, enabled, rfl⟩
    exact apicId_ne_broadcast (notAll xapic s inTable enabled)
  have reached :
      other ∈ cpus ∧
          other ∈ (smp.cpus.map ParseMadt.Cpu.apicId).eraseIdx k ↔
        other ∈ cpus ∧ other ≠ sender ∧
          ∃ s ∈ offsets,
            EnabledLapic madt s ∧ other = (madt.id s).setWidth 32 := by
    rw [mem_eraseIdx distinct atSender, cpusEq, mem_apicIds,
      and_comm (b := other ≠ sender)]
  rw [operations,
    afterWrites_starts driver icr2 (distinct.eraseIdx k) small noBroadcast]
  exact if_congr reached rfl rfl

/-- The processors 2 and 4 of the sample table, of which 2 runs `launch`. -/
theorem launch_starts_all_sample :
    ∃ smp operations,
      parseMadt sampleMadt ⟨[], 0⟩ = .ok () smp ∧
        launch smp 2 = some operations ∧
        ∀ other,
          afterWrites {2, 3, 4} 2 0
              (operations.flatMap Driver.xapic.perform)
              (fun _ => ⟨.running, 0⟩) other =
            if other ∈ ({2, 3, 4} : Finset U32) ∧ other ≠ 2 ∧
                ∃ s ∈ ([44, 50, 58, 66] : List Nat),
                  EnabledLapic sampleMadt s ∧
                    other = (sampleMadt.id s).setWidth 32 then
              { activity := .startedAt 0, starts := 1 }
            else ⟨.running, 0⟩ := by
  have tiled : Tiled sampleMadt sizeofMadt [44, 50, 58, 66] :=
    .subtable (by decide) (by decide) (by decide)
      (.subtable (by decide) (by decide) (by decide)
        (.subtable (by decide) (by decide) (by decide)
          (.subtable (by decide) (by decide) (by decide) .stop)))
  exact
    launch_starts_all tiled (by decide) (by decide)
      ⟨50, by decide, by decide, by decide⟩ .xapic (by decide) ⟨[], 0⟩
      {2, 3, 4} 0 fun _ => ⟨.running, 0⟩

end NopOS.Smp.Launch
