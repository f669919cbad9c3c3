import NopOS.Smp.LockedSections

/-!
# The redirection registers of the I/O APIC

A register is written in two steps: its number goes to the index register, and
its value to the data register.  The lock keeps the two steps of different
processors apart.  How the device stores a value is left open; where the text
is about the entries, a value which was stored is read back, and the other
registers stay.
-/

namespace NopOS.Smp.IoApic

open NopOS.Lib.LabelledRun
open NopOS.Lib.Interleaving
open NopOS.Smp.Spinlock
open NopOS.Smp.LockedSections

variable {Index Interrupt Registers : Type*}

/-- `*index_reg()`, and the registers behind `*data_reg()`. -/
structure Device (Registers : Type*) where
  index : BitVec 32
  registers : Registers

/-- `_gsi` of the interrupts which a processor uses. -/
abbrev Owned (Interrupt : Type*) := Interrupt → BitVec 32

/-- What a write to the data register does to the registers. -/
abbrev Store (Registers : Type*) :=
  BitVec 32 → BitVec 32 → Registers → Registers

section Model

variable
    [DecidableEq Interrupt] (store : Store Registers) (apicId : BitVec 32)

/-- `write`. -/
def write (reg : Owned Interrupt → BitVec 32) (data : BitVec 32) :
    List (Access (Owned Interrupt) (Device Registers)) :=
  [fun own device => (own, { device with index := reg own }),
    fun own device =>
      (own,
        { device with
          registers := store device.index data device.registers })]

/-- The calls of a processor. -/
inductive Request (Interrupt : Type*) where
  | set (interrupt : Interrupt) (gsi vector : BitVec 32)
  | clear (interrupt : Interrupt)
deriving DecidableEq

/-- `gsi_interrupt::set`, where `apicId` is `smp::cpus[0].apic_id`. -/
def set (interrupt : Interrupt) (gsi vector : BitVec 32) :
    Job (Owned Interrupt) (Device Registers) where
  locked :=
    write store (fun _ => 0x10 + gsi * 2 + 1) (apicId <<< 24) ++
      write store (fun _ => 0x10 + gsi * 2) vector
  unlocked own := Function.update own interrupt gsi
  refused := none

/-- `gsi_interrupt::clear`. -/
def clear (interrupt : Interrupt) :
    Job (Owned Interrupt) (Device Registers) where
  locked := write store (fun own => 0x10 + own interrupt * 2) (1 <<< 16)
  unlocked own := own
  refused := none

/-- The section of a call. -/
def Request.job : Request Interrupt → Job (Owned Interrupt) (Device Registers)
  | .set interrupt gsi vector => IoApic.set store apicId interrupt gsi vector
  | .clear interrupt => IoApic.clear store interrupt

/-! ## One request after the other -/

/-- The registers, and what the processors know and want. -/
structure Routing (Index Interrupt Registers : Type*) where
  registers : Registers
  own : Index → Owned Interrupt
  requests : Index → List (Request Interrupt)

/-- The registers after a request. -/
def Request.registers
    (own : Owned Interrupt) (before : Registers) :
    Request Interrupt → Registers
  | .set _ gsi vector =>
      store (0x10 + gsi * 2) vector
        (store (0x10 + gsi * 2 + 1) (apicId <<< 24) before)
  | .clear interrupt => store (0x10 + own interrupt * 2) (1 <<< 16) before

/-- What the processor knows after a request. -/
def Request.own (before : Owned Interrupt) : Request Interrupt → Owned Interrupt
  | .set interrupt gsi _ => Function.update before interrupt gsi
  | .clear _ => before

variable [DecidableEq Index]

/-- The next request of a processor is served. -/
def serve
    (routing : Routing Index Interrupt Registers) (cpu : Index) :
    Routing Index Interrupt Registers :=
  match routing.requests cpu with
  | [] => routing
  | request :: rest =>
      { registers :=
          request.registers store apicId (routing.own cpu) routing.registers
        own :=
          Function.update routing.own cpu (request.own (routing.own cpu))
        requests := Function.update routing.requests cpu rest }

/-- Requests of processors in an order. -/
def serveAll
    (start : Routing Index Interrupt Registers) (order : List Index) :
    Routing Index Interrupt Registers :=
  order.foldl (serve store apicId) start

/-- The processors before their first request. -/
def jobs
    (index : BitVec 32) (start : Routing Index Interrupt Registers) :
    Serial Index (Owned Interrupt) (Device Registers) where
  data := ⟨index, start.registers⟩
  own := start.own
  jobs cpu := (start.requests cpu).map (Request.job store apicId)

/-! ## The sections are the requests -/

variable
    {store : Store Registers} {apicId index : BitVec 32}
    {start routing : Routing Index Interrupt Registers}

omit [DecidableEq Index] in
/-- What a section does is what its request asks for. -/
theorem runAll_job
    (request : Request Interrupt) (own : Owned Interrupt)
    (device : Device Registers) :
    ∃ index,
      runAll (request.job store apicId).locked own device =
        (own, ⟨index, request.registers store apicId own device.registers⟩) := by
  cases request with
  | set interrupt gsi vector => exact ⟨_, rfl⟩
  | clear interrupt => exact ⟨_, rfl⟩

omit [DecidableEq Index] in
theorem unlocked_job (request : Request Interrupt) (own : Owned Interrupt) :
    (request.job store apicId).unlocked own = request.own own := by
  cases request with
  | set interrupt gsi vector => rfl
  | clear interrupt => rfl

omit [DecidableEq Index] in
theorem refused_job (request : Request Interrupt) :
    (request.job store apicId).refused = none := by
  cases request with
  | set interrupt gsi vector => rfl
  | clear interrupt => rfl

omit [DecidableEq Index] in
/-- The first section is that of the first request. -/
theorem request_of_job
    {cpu : Index} {job : Job (Owned Interrupt) (Device Registers)}
    {rest : List (Job (Owned Interrupt) (Device Registers))}
    (next : (jobs store apicId index routing).jobs cpu = job :: rest) :
    ∃ request later,
      routing.requests cpu = request :: later ∧
        job = request.job store apicId ∧
        rest = later.map (Request.job store apicId) := by
  have mapped :
      (routing.requests cpu).map (Request.job store apicId) = job :: rest :=
    next
  rcases List.map_eq_cons_iff.mp mapped with
    ⟨request, later, requests, rfl, rfl⟩
  exact ⟨request, later, requests, rfl, rfl⟩

/-- A step of the serial machine serves a request. -/
theorem serve_of_serialStep
    {after : Serial Index (Owned Interrupt) (Device Registers)}
    {cpu : Index} {passage : Passage}
    (stepped :
      SerialStep (jobs store apicId index routing) (cpu, passage) after) :
    ∃ last,
      after = jobs store apicId last (serve store apicId routing cpu) := by
  cases stepped with
  | @whole _ job rest own data next runs =>
      rcases request_of_job next with
        ⟨request, later, requests, rfl, rfl⟩
      rcases
        @runAll_job _ _ _ store apicId request (routing.own cpu)
          ⟨index, routing.registers⟩ with
        ⟨last, served⟩
      have results := served.symm.trans runs
      rw [Prod.mk.injEq] at results
      rcases results with ⟨rfl, rfl⟩
      have queues :
          Function.update
              (fun other =>
                (routing.requests other).map (Request.job store apicId))
              cpu (later.map (Request.job store apicId)) =
            fun other =>
              (Function.update routing.requests cpu later other).map
                (Request.job store apicId) := by
        funext other
        exact
          (Function.apply_update
            (fun _ => List.map (Request.job store apicId))
            routing.requests cpu later other).symm
      refine ⟨last, ?_⟩
      rw [serve, requests, unlocked_job, jobs, jobs, queues]
  | refused next mayFail =>
      rcases request_of_job next with ⟨request, later, -, rfl, -⟩
      rw [refused_job] at mayFail
      cases mayFail

/-- A run of the serial machine serves the requests in its order. -/
theorem serveAll_of_serialRun
    {order : List (Index × Passage)}
    {serial : Serial Index (Owned Interrupt) (Device Registers)}
    (run : SerialRun (jobs store apicId index start) order serial) :
    ∃ last,
      serial =
        jobs store apicId last
          (serveAll store apicId start (order.map Prod.fst)) := by
  induction run with
  | start => exact ⟨index, rfl⟩
  | @step labels label before after earlier stepped induction =>
      rcases induction with ⟨middle, rfl⟩
      rcases label with ⟨cpu, passage⟩
      rcases serve_of_serialStep stepped with ⟨last, served⟩
      refine ⟨last, ?_⟩
      rw [served, List.map_append, serveAll, serveAll, List.foldl_append]
      rfl

/-- However the processors interleave, the registers are what the requests
make of them one after the other, in some order which keeps the order of each
processor. -/
theorem requests_in_some_order
    {trace : List Index}
    {state :
      Machine Index (Owned Interrupt) (Device Registers)}
    (execution :
      Execution step (started (jobs store apicId index start)) trace state) :
    ∃ order : List Index,
      (state.shared.lock = false →
          state.shared.data.registers =
            (serveAll store apicId start order).registers) ∧
        ∀ cpu,
          (state.locals cpu).point = .testAndSet ∨
              (state.locals cpu).point = .polling →
            (state.locals cpu).own =
                (serveAll store apicId start order).own cpu ∧
              (state.locals cpu).jobs =
                ((serveAll store apicId start order).requests cpu).map
                  (Request.job store apicId) := by
  rcases serialized_execution execution with
    ⟨order, serial, run, -, serialized⟩
  rcases serveAll_of_serialRun run with ⟨last, rfl⟩
  refine ⟨order.map Prod.fst, ?_, ?_⟩
  · intro free
    rw [← serialized.free free]
    rfl
  · intro cpu outside
    have settled := serialized.settled cpu
    rcases here : state.locals cpu with ⟨point, own, jobs⟩
    rw [here] at settled outside
    dsimp only at outside
    rw [settled_waiting outside] at settled
    rcases Prod.mk.inj settled with ⟨sameOwn, sameJobs⟩
    exact ⟨sameOwn.symm, sameJobs.symm⟩

end Model

/-! ## Entries -/

section Entries

variable [DecidableEq Interrupt]

/-- What the device shows in a register. -/
abbrev Shown (Registers : Type*) := BitVec 32 → Registers → BitVec 32

/-- A value which was stored is read back, and leaves the other registers. -/
structure ReadsBack (store : Store Registers) (shown : Shown Registers) :
    Prop where
  stored :
    ∀ reg data registers, shown reg (store reg data registers) = data
  others :
    ∀ reg data registers other, other ≠ reg →
      shown other (store reg data registers) = shown other registers

/-- An entry is as it was, or masked, or it points to the one processor. -/
def Routed
    (shown : Shown Registers) (apicId : BitVec 32)
    (start registers : Registers) : Prop :=
  ∀ gsi : BitVec 32,
    shown (0x10 + gsi * 2) registers = shown (0x10 + gsi * 2) start ∨
      shown (0x10 + gsi * 2) registers = 1 <<< 16 ∨
      shown (0x10 + gsi * 2 + 1) registers = apicId <<< 24

variable
    {store : Store Registers} {shown : Shown Registers}
    {apicId gsi value : BitVec 32} {start registers : Registers}

theorem low_ne_high (gsi other : BitVec 32) :
    0x10 + gsi * 2 ≠ 0x10 + other * 2 + 1 := by
  bv_omega

/-- The low word of an entry is written to what it may be. -/
theorem Routed.low
    (readsBack : ReadsBack store shown)
    (routed : Routed shown apicId start registers)
    (allowed :
      value = 1 <<< 16 ∨
        shown (0x10 + gsi * 2 + 1) registers = apicId <<< 24) :
    Routed shown apicId start (store (0x10 + gsi * 2) value registers) := by
  intro other
  rw [readsBack.others _ _ _ _ (low_ne_high gsi other).symm]
  by_cases same : 0x10 + other * 2 = 0x10 + gsi * 2
  · right
    rw [same, readsBack.stored]
    exact allowed
  · rw [readsBack.others _ _ _ _ same]
    exact routed other

/-- The high word of an entry points to the processor. -/
theorem Routed.high
    (readsBack : ReadsBack store shown)
    (routed : Routed shown apicId start registers) :
    Routed shown apicId start
      (store (0x10 + gsi * 2 + 1) (apicId <<< 24) registers) := by
  intro other
  rw [readsBack.others _ _ _ _ (low_ne_high other gsi)]
  by_cases same : 0x10 + other * 2 + 1 = 0x10 + gsi * 2 + 1
  · rw [same, readsBack.stored]
    exact Or.inr (Or.inr rfl)
  · rw [readsBack.others _ _ _ _ same]
    exact routed other

/-- No beginning of a section leaves an entry which is half written and not
masked. -/
theorem routed_of_beginning
    (readsBack : ReadsBack store shown)
    (request : Request Interrupt)
    {done left : List (Access (Owned Interrupt) (Device Registers))}
    (parts : (request.job store apicId).locked = done ++ left)
    (own : Owned Interrupt) (device : Device Registers)
    (routed : Routed shown apicId start device.registers) :
    Routed shown apicId start (runAll done own device).2.registers := by
  cases request with
  | set interrupt gsi vector =>
      rcases done with
        - | ⟨first, - | ⟨second, - | ⟨third, - | ⟨fourth, - | ⟨fifth, more⟩⟩⟩⟩⟩
      · exact routed
      · cases parts
        exact routed
      · cases parts
        exact routed.high readsBack
      · cases parts
        exact routed.high readsBack
      · cases parts
        exact
          (routed.high readsBack).low readsBack
            (Or.inr (readsBack.stored _ _ _))
      · cases parts
  | clear interrupt =>
      rcases done with - | ⟨first, - | ⟨second, - | ⟨third, more⟩⟩⟩
      · exact routed
      · cases parts
        exact routed
      · cases parts
        exact routed.low readsBack (Or.inl rfl)
      · cases parts

variable [DecidableEq Index]

/-- At any time, also in the middle of a call, every entry is as it was at the
start, or masked, or it points to the one processor. -/
theorem entries_routed
    (readsBack : ReadsBack store shown)
    {index : BitVec 32} {start : Routing Index Interrupt Registers}
    {trace : List Index}
    {state : Machine Index (Owned Interrupt) (Device Registers)}
    (execution :
      Execution step (started (jobs store apicId index start)) trace state) :
    Routed shown apicId start.registers state.shared.data.registers := by
  refine
    @data_invariant _ _ _ _ _ _
      (fun device => Routed shown apicId start.registers device.registers)
      ?_ ?_ _ execution
  · intro gsi
    exact Or.inl rfl
  · intro cpu job member done left parts own device routed
    rcases List.mem_map.mp member with ⟨request, -, rfl⟩
    exact routed_of_beginning readsBack request parts own device routed

end Entries

/-! ## An example -/

section Example

/-- One word for every register. -/
abbrev Table := BitVec 32 → BitVec 32

/-- A device which keeps every word as it is written. -/
def storeWord : Store Table := fun reg data table =>
  Function.update table reg data

/-- A table of words reads back what is written. -/
theorem readsBack_storeWord :
    ReadsBack storeWord fun reg table => table reg where
  stored _ _ _ := Function.update_self _ _ _
  others _ _ _ _ different := Function.update_of_ne different _ _

/-- Two processors, each of which sets an interrupt. -/
def sampleRouting : Routing Bool Unit Table where
  registers _ := 0
  own _ _ := 0
  requests cpu := if cpu then [.set () 5 0x32] else [.set () 4 0x31]

/-- The first processor in the middle of `set`. -/
theorem execution_sampleRouting :
    Execution step (started (jobs storeWord 7 0 sampleRouting))
      ([] ++ List.replicate 3 false)
      ⟨⟨true, ⟨0x19, Function.update (fun _ => 0) 0x19 (7 <<< 24)⟩⟩,
        Function.update (started (jobs storeWord 7 0 sampleRouting)).locals false
          ⟨.locked (write storeWord (fun _ => 0x10 + 4 * 2) 0x31), fun _ => 0,
            [set storeWord 7 () 4 0x31]⟩⟩ :=
  Execution.alone Run.start false 3 rfl

/-- One entry routed to the processor with id 7. -/
theorem entries_routed_sample :
    Routed (fun reg table => table reg) 7 sampleRouting.registers
      (Function.update (fun _ => 0) 0x19 (7 <<< 24)) :=
  entries_routed readsBack_storeWord execution_sampleRouting

/-- The second processor comes while the first one is in the middle of its
call, and waits for it. -/
theorem requests_in_some_order_sample :
    ∃ trace state,
      Execution step (started (jobs storeWord 7 0 sampleRouting)) trace
          state ∧
        (state.shared.lock = false ∧
          state.shared.data.registers 0x18 = 0x31 ∧
          state.shared.data.registers 0x1a = 0x32) ∧
        ∃ order : List Bool,
          (state.shared.lock = false →
              state.shared.data.registers =
                (serveAll storeWord 7 sampleRouting order).registers) ∧
            ∀ cpu,
              (state.locals cpu).point = .testAndSet ∨
                  (state.locals cpu).point = .polling →
                (state.locals cpu).own =
                    (serveAll storeWord 7 sampleRouting order).own cpu ∧
                  (state.locals cpu).jobs =
                    ((serveAll storeWord 7 sampleRouting order).requests
                        cpu).map
                      (Request.job storeWord 7) := by
  have first :
      Execution step (started (jobs storeWord 7 0 sampleRouting)) _ _ :=
    Execution.alone Run.start false 3 rfl
  have waits := Execution.alone first true 1 rfl
  have returns := Execution.alone waits false 4 rfl
  have last := Execution.alone returns true 8 rfl
  exact
    ⟨_, _, last, ⟨rfl, rfl, rfl⟩, requests_in_some_order last⟩

end Example

end NopOS.Smp.IoApic
