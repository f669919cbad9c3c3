import NopOS.Lib.BitField
import NopOS.Traps.FrameTransparency

/-!
# The interrupt descriptor table and delivery through it

The constructor of `interrupt_descriptor_table` fills the gates, the
assembler places the stubs, and the processor puts the offset of a gate
together again from its three pieces.
-/

namespace NopOS.Traps.DescriptorTable

open NopOS.Lib.BitField
open NopOS.Lib.WordStack
open NopOS.Traps.EntryCode
open NopOS.Traps.FrameTransparency

/-- A 32-bit argument of the table's functions. -/
abbrev U32 := BitVec 32

/-! ## Where the stubs lie -/

/-- What `as` decides: the start of the section, what comes in it before the
stubs, the labels outside them, and the length of each jump. -/
structure Layout where
  text : U64
  before : Nat
  symbol : Label → U64
  jmpSize : Nat → Nat
  /-- A jump is short or near. -/
  jmpSize_cases : ∀ vector, jmpSize vector = 2 ∨ jmpSize vector = 5

namespace Layout

/-- The directive `.align 16`. -/
def align16 (location : Nat) : Nat :=
  (location + 15) / 16 * 16

/-- The bytes of a stub's first instruction in each of its two encodings. -/
def pushSize (vector : Nat) : Nat :=
  match pushq vector with
  | .pushImm8 _ => 2
  | _ => 5

/-- `interrupt_entry`, in its section. -/
def interruptEntry (layout : Layout) : Nat :=
  align16 layout.before

/-- The location after some turns of the `.rept` block. -/
def stubsEnd (layout : Layout) : Nat → Nat
  | 0 => layout.interruptEntry
  | turn + 1 =>
      align16 (stubsEnd layout turn) + pushSize (32 + turn) +
        layout.jmpSize (32 + turn)

/-- The location of a stub, by its vector. -/
def stubLocation (layout : Layout) (vector : Nat) : Nat :=
  align16 (layout.stubsEnd (vector - 32))

/-- Where a label lies: the stubs one after another from `layout.text`, the rest
by the linker. -/
def address (layout : Layout) : Label → U64
  | .interruptStub vector =>
      layout.text + BitVec.ofNat 64 (layout.stubLocation vector)
  | label => layout.symbol label

end Layout

/-! ## The source of the table -/

namespace IdtEntry

/-- `offset0`: the low 16 bits of the handler's address. -/
def offset0 : Field 128 := { offset := 0, width := 16 }

/-- `selector`: the code segment the handler runs in. -/
def selector : Field 128 := { offset := 16, width := 16 }

/-- `ist`: the interrupt stack. -/
def ist : Field 128 := { offset := 32, width := 3 }

/-- `type`: interrupt gate or trap gate. -/
def type : Field 128 := { offset := 40, width := 4 }

/-- `s`: zero for a system descriptor. -/
def s : Field 128 := { offset := 44, width := 1 }

/-- `dpl`: the least privileged ring that may raise the vector. -/
def dpl : Field 128 := { offset := 45, width := 2 }

/-- `p`: the present bit. -/
def p : Field 128 := { offset := 47, width := 1 }

/-- `offset1`: bits 16 to 31 of the handler's address. -/
def offset1 : Field 128 := { offset := 48, width := 16 }

/-- `offset2`: the upper half of the handler's address. -/
def offset2 : Field 128 := { offset := 64, width := 32 }

end IdtEntry

/-- An interrupt descriptor table, by vector. -/
abbrev Table := Nat → BitVec 128

/-- The entry which `add_entry` stores. -/
def idtEntry (cs : BitVec 16) (istArgument : U32) (addr : U64) : BitVec 128 :=
  let e := IdtEntry.offset0.set 0 (addr.setWidth _)
  let e := IdtEntry.selector.set e (cs.setWidth _)
  let e := IdtEntry.ist.set e (istArgument.setWidth _)
  let e := IdtEntry.type.set e 14
  let e := IdtEntry.s.set e 0
  let e := IdtEntry.dpl.set e 0
  let e := IdtEntry.p.set e 1
  let e := IdtEntry.offset1.set e ((addr >>> 16).setWidth _)
  IdtEntry.offset2.set e ((addr >>> 32).setWidth _)

/-- `interrupt_descriptor_table::add_entry`. -/
def addEntry
    (cs : BitVec 16) (idt : Table) (vec : Nat) (ist : U32) (handler : U64) :
    Table :=
  Function.update idt vec (idtEntry cs ist handler)

/-- The exceptions of the constructor, in its order. -/
def exceptionStubs : List (Nat × Label) :=
  [(0, .exDe), (1, .exDb), (2, .exNmi), (3, .exBp), (4, .exOf), (5, .exBr),
    (6, .exUd), (7, .exNm), (8, .exDf), (10, .exTs), (11, .exNp),
    (12, .exSs), (13, .exGp), (14, .exPf), (16, .exMf), (17, .exAc),
    (18, .exMc), (19, .exXm)]

/-- `interrupt_entry + (i - 32) * 16`. -/
def interruptHandler (layout : Layout) (i : Nat) : U64 :=
  layout.text + BitVec.ofNat 64 layout.interruptEntry +
    BitVec.ofNat 64 ((i - 32) * 16)

/-- The calls of `add_entry` in the constructor. -/
def entries (layout : Layout) : List (Nat × U32 × U64) :=
  exceptionStubs.map (fun (vec, label) => (vec, (1 : U32), layout.address label)) ++
    (List.range' 32 (256 - 32)).map
      (fun i => (i, (2 : U32), interruptHandler layout i))

/-- A sequence of `add_entry` calls, in the source's order. -/
def addEntries
    (cs : BitVec 16) (idt : Table) (calls : List (Nat × U32 × U64)) : Table :=
  calls.foldl
    (fun idt (vec, ist, handler) => addEntry cs idt vec ist handler) idt

/-- The table after the constructor.  It is a local variable of `premain`, which
holds anything before. -/
def interruptDescriptorTable
    (cs : BitVec 16) (layout : Layout) (before : Table) : Table :=
  addEntries cs before (entries layout)

/-! ## The processor -/

/-- A gate as the processor reads it. -/
structure Gate where
  offset : U64
  selector : BitVec 16
  ist : BitVec 3
  type : BitVec 4
  s : BitVec 1
  present : BitVec 1
deriving DecidableEq

/-- How the processor reads a descriptor of the table. -/
def readGate (word : BitVec 128) : Gate where
  offset :=
    word.extractLsb' 64 32 ++ word.extractLsb' 48 16 ++ word.extractLsb' 0 16
  selector := word.extractLsb' 16 16
  ist := word.extractLsb' 32 3
  type := word.extractLsb' 40 4
  s := word.extractLsb' 44 1
  present := word.extractLsb' 47 1

/-- The vectors for which the processor pushes an error code. -/
def hasErrorCode (vec : Nat) : Bool :=
  vec ∈ [8, 10, 11, 12, 13, 14, 17]

/-- The stack after delivery through a gate. -/
def deliveryStack
    (gate : Gate) (istTable : BitVec 3 → U64) (memory : U64 → U64)
    (context : Context) (errorCode : Option U64) : Stack :=
  let top := if gate.ist = 0 then context.rsp else istTable gate.ist
  let stack : Stack := ⟨top &&& ~~~15, memory⟩
  let stack := stack.push context.ss
  let stack := stack.push context.rsp
  let stack := stack.push context.rflags
  let stack := stack.push context.cs
  let stack := stack.push context.rip
  match errorCode with
  | none => stack
  | some code => stack.push code

/-- Delivery of a vector: where execution goes on, and in which state.  It
fails at a gate which is not a present interrupt gate. -/
def deliver
    (idt : Table) (istTable : BitVec 3 → U64) (memory : U64 → U64)
    (vec : Nat) (context : Context) (errorCode : U64) : Option (U64 × Cpu) :=
  let gate := readGate (idt vec)
  if gate.present = 1 ∧ gate.s = 0 ∧ gate.type = 14 then
    let pushed := if hasErrorCode vec then some errorCode else none
    some
      (gate.offset,
        ⟨context.registers,
          deliveryStack gate istTable memory context pushed⟩)
  else none

/-! ## What is installed -/

/-- The vectors for which the constructor installs a handler. -/
def Installed (vec : Nat) : Prop :=
  vec ≤ 8 ∨ (10 ≤ vec ∧ vec ≤ 14) ∨ (16 ≤ vec ∧ vec ≤ 19) ∨
    (32 ≤ vec ∧ vec ≤ 255)

instance (vec : Nat) : Decidable (Installed vec) :=
  inferInstanceAs (Decidable (_ ∨ _ ∨ _ ∨ _))

theorem Installed.lt {vec : Nat} (installed : Installed vec) : vec < 256 := by
  rw [Installed] at installed
  omega

/-- The stub which is meant for a vector. -/
def stubOf : Nat → Label
  | 0 => .exDe
  | 1 => .exDb
  | 2 => .exNmi
  | 3 => .exBp
  | 4 => .exOf
  | 5 => .exBr
  | 6 => .exUd
  | 7 => .exNm
  | 8 => .exDf
  | 10 => .exTs
  | 11 => .exNp
  | 12 => .exSs
  | 13 => .exGp
  | 14 => .exPf
  | 16 => .exMf
  | 17 => .exAc
  | 18 => .exMc
  | 19 => .exXm
  | vec => .interruptStub vec

/-- The handler which is meant for a vector. -/
def handlerOf : Nat → Handler
  | 0 => .divideError
  | 1 => .debugException
  | 2 => .nmi
  | 3 => .breakpoint
  | 4 => .overflow
  | 5 => .boundRangeExceeded
  | 6 => .invalidOpcode
  | 7 => .deviceNotAvailable
  | 8 => .doubleFault
  | 10 => .invalidTss
  | 11 => .segmentNotPresent
  | 12 => .stackFault
  | 13 => .generalProtection
  | 14 => .pageFault
  | 16 => .mathFault
  | 17 => .alignmentCheck
  | 18 => .machineCheck
  | 19 => .simdException
  | _ => .interrupt

/-- What the slot of the error code is to hold. -/
def slotOf (vec : Nat) (errorCode : U64) : U64 :=
  if 32 ≤ vec then BitVec.ofNat 64 vec
  else if hasErrorCode vec then errorCode
  else 0

/-! ## The stubs are 16 bytes apart -/

namespace Layout

theorem pushSize_le (vector : Nat) : pushSize vector ≤ 5 := by
  rw [pushSize, pushq]
  split_ifs
  · show 2 ≤ 5
    decide
  · show 5 ≤ 5
    decide

/-- The stubs lie 16 bytes apart, which `.align` sees to. -/
theorem stubLocation_eq (layout : Layout) (turn : Nat) :
    layout.stubLocation (32 + turn) = layout.interruptEntry + 16 * turn := by
  rw [stubLocation, Nat.add_sub_cancel_left]
  induction turn with
  | zero =>
      show align16 (align16 layout.before) = align16 layout.before
      rw [align16, align16]
      omega
  | succ turn induction =>
      have push := pushSize_le (32 + turn)
      have pushPositive : 0 < pushSize (32 + turn) := by
        rw [pushSize]
        split <;> decide
      have jump := layout.jmpSize_cases (32 + turn)
      show
        align16
            (align16 (layout.stubsEnd turn) + pushSize (32 + turn) +
              layout.jmpSize (32 + turn)) =
          align16 layout.before + 16 * (turn + 1)
      rw [induction]
      show
        align16
            (align16 layout.before + 16 * turn + pushSize (32 + turn) +
              layout.jmpSize (32 + turn)) = _
      simp only [align16]
      omega

end Layout

/-- The pointer which the loop computes is the address of the stub. -/
theorem interruptHandler_eq (layout : Layout) (turn : Nat) :
    interruptHandler layout (32 + turn) =
      layout.address (.interruptStub (32 + turn)) := by
  have location := layout.stubLocation_eq turn
  rw [interruptHandler, Layout.address, location, Nat.add_sub_cancel_left,
    BitVec.add_assoc, ← BitVec.ofNat_add, Nat.mul_comm turn 16]

/-! ## The gates of the table -/

/-- The pieces of an address, put together. -/
theorem offset_pieces (addr : U64) :
    (addr >>> 32).setWidth 32 ++ (addr >>> 16).setWidth 16 ++
        addr.setWidth 16 =
      addr := by
  apply BitVec.eq_of_getLsbD_eq
  intro bit inWord
  rw [BitVec.getLsbD_append, BitVec.getLsbD_append]
  by_cases low : bit < 16
  · simp [low]
  · by_cases middle : bit - 16 < 16
    · have back : 16 + (bit - 16) = bit := by omega
      simp [low, middle, back]
    · have back : 32 + (bit - 16 - 16) = bit := by omega
      have high : bit - 16 - 16 < 32 := by omega
      simp [low, middle, back, high]

/-- The processor reads from an entry what `add_entry` was given. -/
theorem readGate_idtEntry (cs : BitVec 16) (istArgument : U32) (addr : U64) :
    readGate (idtEntry cs istArgument addr) =
      { offset := addr, selector := cs, ist := istArgument.setWidth 3,
        type := 14, s := 0, present := 1 } := by
  let e := idtEntry cs istArgument addr
  have fields :
      IdtEntry.offset0.get e = addr.setWidth _ ∧
        IdtEntry.offset1.get e = (addr >>> 16).setWidth _ ∧
        IdtEntry.offset2.get e = (addr >>> 32).setWidth _ ∧
        IdtEntry.selector.get e = cs.setWidth _ ∧
        IdtEntry.ist.get e = istArgument.setWidth _ ∧
        IdtEntry.type.get e = 14 ∧
        IdtEntry.s.get e = 0 ∧ IdtEntry.p.get e = 1 := by
    simp (disch := decide) only
      [e, idtEntry, Field.get_set_of_apart, Field.get_set, and_self]
  rcases fields with
    ⟨offset0, offset1, offset2, selector, ist, type, s, present⟩
  have offset :
      IdtEntry.offset2.get e ++ IdtEntry.offset1.get e ++
          IdtEntry.offset0.get e =
        addr := by
    rw [offset0, offset1, offset2]
    exact offset_pieces addr
  have sameSelector : IdtEntry.selector.get e = cs :=
    selector.trans (BitVec.setWidth_eq cs)
  show Gate.mk _ _ _ _ _ _ = _
  rw [Gate.mk.injEq]
  exact ⟨offset, sameSelector, ist, type, s, present⟩

theorem addEntries_of_notMem
    (cs : BitVec 16) (idt : Table) {calls : List (Nat × U32 × U64)}
    {vec : Nat} (absent : vec ∉ calls.map Prod.fst) :
    addEntries cs idt calls vec = idt vec := by
  induction calls generalizing idt with
  | nil => rfl
  | cons call calls induction =>
      rw [List.map_cons, List.mem_cons, not_or] at absent
      have later :=
        induction (addEntry cs idt call.1 call.2.1 call.2.2) absent.2
      show addEntries cs (addEntry cs idt call.1 call.2.1 call.2.2) calls vec = _
      rw [later]
      exact Function.update_of_ne absent.1 _ _

/-- An entry that is added once is there. -/
theorem addEntries_of_mem
    (cs : BitVec 16) (idt : Table) {calls : List (Nat × U32 × U64)}
    {vec : Nat} {ist : U32} {handler : U64}
    (distinct : (calls.map Prod.fst).Nodup)
    (called : (vec, ist, handler) ∈ calls) :
    addEntries cs idt calls vec = idtEntry cs ist handler := by
  induction calls generalizing idt with
  | nil => cases called
  | cons call calls induction =>
      rw [List.map_cons, List.nodup_cons] at distinct
      cases called with
      | head =>
          show
            addEntries cs (addEntry cs idt vec ist handler) calls vec = _
          rw [addEntries_of_notMem cs _ distinct.1]
          exact Function.update_self _ _ _
      | tail _ called => exact induction _ distinct.2 called

/-- No vector is added twice. -/
theorem distinct_entries (layout : Layout) :
    ((entries layout).map Prod.fst).Nodup := by
  have vectors :
      (entries layout).map Prod.fst =
        exceptionStubs.map Prod.fst ++ List.range' 32 (256 - 32) := by
    have loop :
        Prod.fst ∘ (fun i => (i, (2 : U32), interruptHandler layout i)) =
          id :=
      rfl
    rw [entries, List.map_append, List.map_map, List.map_map, loop,
      List.map_id]
    rfl
  rw [vectors, List.nodup_append]
  refine ⟨by decide, List.nodup_range', ?_⟩
  intro exception isException interrupt isInterrupt same
  have low : ∀ vec ∈ exceptionStubs.map Prod.fst, vec < 32 := by decide
  have below := low exception isException
  have above := (List.mem_range'_1.1 isInterrupt).1
  omega

theorem stubOf_of_le {vec : Nat} (high : 32 ≤ vec) :
    stubOf vec = .interruptStub vec := by
  unfold stubOf
  split
  all_goals first
    | omega
    | rfl

theorem handlerOf_of_le {vec : Nat} (high : 32 ≤ vec) :
    handlerOf vec = .interrupt := by
  unfold handlerOf
  split
  all_goals first
    | omega
    | rfl

/-- The constructor makes a gate for every vector that is installed. -/
theorem mem_entries (layout : Layout) {vec : Nat} (installed : Installed vec) :
    ∃ ist, (vec, ist, layout.address (stubOf vec)) ∈ entries layout := by
  by_cases high : 32 ≤ vec
  · have inLoop : vec ∈ List.range' 32 (256 - 32) := by
      rw [List.mem_range'_1]
      rw [Installed] at installed
      omega
    obtain ⟨turn, rfl⟩ := Nat.exists_eq_add_of_le high
    refine ⟨2, List.mem_append_right _ ?_⟩
    rw [stubOf_of_le high, ← interruptHandler_eq]
    exact List.mem_map_of_mem inLoop
  · have listed :
        ∀ vec < 32, Installed vec → (vec, stubOf vec) ∈ exceptionStubs := by
      decide
    have found := listed vec (by omega) installed
    refine ⟨1, List.mem_append_left _ ?_⟩
    exact
      List.mem_map_of_mem
        (f := fun (vec, label) => (vec, (1 : U32), layout.address label)) found

/-! ## Delivery -/

theorem holds_deliveryStack
    (gate : Gate) (istTable : BitVec 3 → U64) (memory : U64 → U64)
    (context : Context) :
    (deliveryStack gate istTable memory context none).Holds
      (contextWords context) := by
  let top := if gate.ist = 0 then context.rsp else istTable gate.ist
  have empty : Stack.Holds ⟨top &&& ~~~15, memory⟩ [] := Stack.holds_nil _
  have ss := empty.push (Nat.two_pow_pos 60) context.ss
  have rsp := ss.push (by simp) context.rsp
  have rflags := rsp.push (by simp) context.rflags
  have cs := rflags.push (by simp) context.cs
  exact cs.push (by simp) context.rip

/-- An installed vector is delivered to its stub. -/
theorem deliver_installed
    (layout : Layout) (cs : BitVec 16) (before : Table)
    (istTable : BitVec 3 → U64) (memory : U64 → U64) {vec : Nat}
    (context : Context) (errorCode : U64)
    (installed : Installed vec) :
    ∃ gate : Gate,
      deliver (interruptDescriptorTable cs layout before) istTable memory vec
          context errorCode =
        some
          (layout.address (stubOf vec),
            ⟨context.registers,
              deliveryStack gate istTable memory context
                (if hasErrorCode vec then some errorCode else none)⟩) := by
  rcases mem_entries layout installed with ⟨ist, called⟩
  have entry :
      interruptDescriptorTable cs layout before vec =
        idtEntry cs ist (layout.address (stubOf vec)) :=
    addEntries_of_mem cs _ (distinct_entries layout) called
  refine ⟨readGate (interruptDescriptorTable cs layout before vec), ?_⟩
  rw [deliver, entry, readGate_idtEntry]
  exact if_pos ⟨rfl, rfl, rfl⟩

/-! ## From the stub to the call -/

/-- The stub of an exception is its entry macro. -/
theorem code_stubOf :
    ∀ vec < 32, Installed vec →
      code (stubOf vec) =
        exceptionEntry (handlerOf vec) (hasErrorCode vec) := by
  decide

theorem signExtend_ofNat (width value : Nat) (positive : 0 < width)
    (small : value < 2 ^ (width - 1)) (fits : width ≤ 64) :
    (BitVec.ofNat width value).signExtend 64 = BitVec.ofNat 64 value := by
  have half : 2 ^ (width - 1) * 2 = 2 ^ width := by
    rw [← Nat.pow_succ]
    congr 1
    omega
  have inWidth : value < 2 ^ width := by omega
  have inWord : 2 ^ width ≤ 2 ^ 64 :=
    Nat.pow_le_pow_right (by decide) fits
  have notNegative : (BitVec.ofNat width value).msb = false := by
    rw [BitVec.msb_eq_false_iff_two_mul_lt, BitVec.toNat_ofNat,
      Nat.mod_eq_of_lt inWidth]
    omega
  rw [BitVec.signExtend_eq_setWidth_of_msb_false notNegative]
  apply BitVec.eq_of_toNat_eq
  rw [BitVec.toNat_setWidth, BitVec.toNat_ofNat, BitVec.toNat_ofNat,
    Nat.mod_eq_of_lt inWidth]

/-- Both encodings push the vector. -/
theorem run_pushq
    {value : Nat} (small : value < 256) (rest : List Instruction) (cpu : Cpu) :
    run (pushq value :: rest) cpu =
      run rest (cpu.push (BitVec.ofNat 64 value)) := by
  by_cases byte : value < 128
  · rw [pushq, if_pos byte, run,
      signExtend_ofNat 8 value (by decide) byte (by decide)]
  · have inWord : value < 2 ^ 31 := by omega
    rw [pushq, if_neg byte, run,
      signExtend_ofNat 32 value (by decide) inWord (by decide)]

/-- The stub of an interrupt pushes its vector. -/
theorem enter_interruptStub {vec : Nat} (small : vec < 256) (cpu : Cpu) :
    enter (.interruptStub vec) cpu =
      run (exceptionErrorEntry .interrupt)
        (cpu.push (BitVec.ofNat 64 vec)) := by
  have jumped :
      run (code (.interruptStub vec)) cpu =
        .jumps .interruptEntryCommon (cpu.push (BitVec.ofNat 64 vec)) :=
    run_pushq small _ cpu
  rw [enter, jumped]
  rfl

/-- The stub of an exception, with and without a code of the processor. -/
theorem run_exceptionEntry
    {cpu : Cpu} {context : Context} {errorCode : U64}
    (handler : Handler) (pushes : Bool)
    (registers : cpu.registers = context.registers)
    (holds :
      cpu.stack.Holds
        (if pushes then errorCode :: contextWords context
        else contextWords context)) :
    ∃ atCall,
      run (exceptionEntry handler pushes) cpu =
          .calls handler exceptionExit atCall ∧
        ReceivesFrame context (if pushes then errorCode else 0) atCall ∧
          (frameStack atCall).Holds
            (frameWords context (if pushes then errorCode else 0)) := by
  cases pushes with
  | true => exact run_exceptionErrorEntry handler registers holds
  | false => exact run_exceptionNoerrorEntry handler registers holds

/-- From the state after delivery to the call, for every vector. -/
theorem enter_stubOf
    {vec : Nat} (installed : Installed vec) {cpu : Cpu} {context : Context}
    {errorCode : U64}
    (registers : cpu.registers = context.registers)
    (holds :
      cpu.stack.Holds
        (if hasErrorCode vec then errorCode :: contextWords context
        else contextWords context)) :
    ∃ atCall,
      enter (stubOf vec) cpu =
          .calls (handlerOf vec) exceptionExit atCall ∧
        ReceivesFrame context (slotOf vec errorCode) atCall ∧
          (frameStack atCall).Holds
            (frameWords context (slotOf vec errorCode)) := by
  by_cases high : 32 ≤ vec
  · have noCode : hasErrorCode vec = false := by
      rw [hasErrorCode, decide_eq_false_iff_not]
      simp only [List.mem_cons, List.not_mem_nil, or_false]
      omega
    have slot : slotOf vec errorCode = BitVec.ofNat 64 vec := if_pos high
    rw [noCode] at holds
    rw [slot, stubOf_of_le high, handlerOf_of_le high,
      enter_interruptStub installed.lt]
    -- the stub pushes its vector in the place of the error code
    exact
      run_exceptionErrorEntry .interrupt registers
        (holds.push (length_contextWords_lt context) _)
  · have stub := code_stubOf vec (by omega) installed
    have slot :
        slotOf vec errorCode = if hasErrorCode vec then errorCode else 0 :=
      if_neg high
    rcases
        run_exceptionEntry (handlerOf vec) (hasErrorCode vec) registers
          holds with
      ⟨atCall, called, received⟩
    rw [slot, enter, stub, called]
    exact ⟨atCall, rfl, received⟩

/-- What delivery leaves on the stack. -/
theorem holds_delivered
    (gate : Gate) (istTable : BitVec 3 → U64) (memory : U64 → U64)
    (context : Context) (errorCode : U64) (pushes : Bool) :
    (deliveryStack gate istTable memory context
        (if pushes then some errorCode else none)).Holds
      (if pushes then errorCode :: contextWords context
      else contextWords context) := by
  have words := holds_deliveryStack gate istTable memory context
  cases pushes with
  | true => exact words.push (length_contextWords_lt context) errorCode
  | false => exact words

/-- The vector as the `int` which `interrupt` takes. -/
theorem toInt_vector {vec : Nat} (small : vec < 256) :
    ((BitVec.ofNat 64 vec).setWidth 32).toInt = vec := by
  have value : ((BitVec.ofNat 64 vec).setWidth 32).toNat = vec := by
    rw [BitVec.toNat_setWidth, BitVec.toNat_ofNat]
    omega
  rw [BitVec.toInt_eq_toNat_of_lt (by omega), value]

/-- The interrupted context goes in and comes out, whatever the table held
before. -/
theorem delivery_transparent
    (layout : Layout) (cs : BitVec 16) (before : Table)
    (istTable : BitVec 3 → U64) (memory : U64 → U64) (vec : Nat)
    (context : Context) (errorCode : U64) (installed : Installed vec) :
    ∃ atEntry,
      deliver (interruptDescriptorTable cs layout before) istTable memory vec
            context errorCode =
          some (layout.address (stubOf vec), atEntry) ∧
        ∃ atCall,
          enter (stubOf vec) atEntry =
              .calls (handlerOf vec) exceptionExit atCall ∧
            ReceivesFrame context (slotOf vec errorCode) atCall ∧
            (32 ≤ vec →
              ((atCall.registers .rsi).setWidth 32).toInt = vec) ∧
            ∀ returned,
              ReturnsTo atCall returned →
                run exceptionExit returned = .resumes context := by
  rcases
      deliver_installed layout cs before istTable memory context errorCode
        installed with
    ⟨gate, delivered⟩
  refine ⟨_, delivered, ?_⟩
  let atEntry : Cpu :=
    ⟨context.registers,
      deliveryStack gate istTable memory context
        (if hasErrorCode vec then some errorCode else none)⟩
  have registers : atEntry.registers = context.registers := rfl
  have holds :
      atEntry.stack.Holds
        (if hasErrorCode vec then errorCode :: contextWords context
        else contextWords context) :=
    holds_delivered gate istTable memory context errorCode (hasErrorCode vec)
  rcases enter_stubOf installed registers holds with
    ⟨atCall, called, received, frame⟩
  refine ⟨atCall, called, received, ?_, ?_⟩
  · intro high
    have slot : slotOf vec errorCode = BitVec.ofNat 64 vec := if_pos high
    rw [received.vec, slot]
    exact toInt_vector installed.lt
  · intro returned returns
    exact run_exceptionExit frame returns

/-- A layout whose jumps are all near. -/
def nearLayout : Layout where
  text := 0x200000
  before := 1000
  symbol := fun _ => 0x200000
  jmpSize := fun _ => 5
  jmpSize_cases := fun _ => Or.inr rfl

/-- A context with the same value in every register, for the samples. -/
def idleContext : Context where
  registers := fun _ => 7
  rip := 0x203000
  cs := 8
  rflags := 0x202
  rsp := 0x90000
  ss := 16

/-- Vector 200 in an idle loop. -/
theorem delivery_transparent_twoHundred :
    Installed 200 ∧
      ∃ atEntry,
        deliver (interruptDescriptorTable 8 nearLayout fun _ => 0xcc)
              (fun _ => 0x80000) (fun _ => 0) 200 idleContext 0 =
            some (nearLayout.address (.interruptStub 200), atEntry) ∧
          ∃ atCall,
            enter (.interruptStub 200) atEntry =
                .calls .interrupt exceptionExit atCall ∧
              ReceivesFrame idleContext 200 atCall ∧
              (32 ≤ 200 →
                ((atCall.registers .rsi).setWidth 32).toInt = 200) ∧
              ∀ returned,
                ReturnsTo atCall returned →
                  run exceptionExit returned = .resumes idleContext :=
  ⟨by decide,
    delivery_transparent nearLayout 8 (fun _ => 0xcc) (fun _ => 0x80000)
      (fun _ => 0) 200 idleContext 0 (by decide)⟩

end NopOS.Traps.DescriptorTable
