import NopOS.Lib.WordStack

/-!
# The entry and exit code of `entry.S`

Every stub is a straight line of instructions around one call.  The processor
has pushed five words, and an error code for some vectors; the stub makes the
error code uniform, pushes the fifteen general registers, calls its handler
with the address of all this and takes everything off again.

The stacks the processor switches to are aligned to 16 bytes, so that all
accesses are to aligned quad words and memory is given by its quad words.
-/

namespace NopOS.Traps.EntryCode

open NopOS.Lib.WordStack

/-- A 64-bit register or stack slot. -/
abbrev U64 := BitVec 64

/-- The general registers other than `rsp`. -/
inductive Register where
  | rax | rbx | rcx | rdx | rsi | rdi | rbp
  | r8 | r9 | r10 | r11 | r12 | r13 | r14 | r15
deriving DecidableEq

/-- What the entry code changes: the general registers and the stack. -/
structure Cpu where
  registers : Register → U64
  stack : Stack

/-- What is interrupted, and what `iretq` returns to. -/
structure Context where
  registers : Register → U64
  rip : U64
  cs : U64
  rflags : U64
  rsp : U64
  ss : U64

/-- The handlers in C. -/
inductive Handler where
  | divideError | debugException | nmi | breakpoint | overflow
  | boundRangeExceeded | invalidOpcode | deviceNotAvailable | doubleFault
  | invalidTss | segmentNotPresent | stackFault | generalProtection
  | pageFault | mathFault | alignmentCheck | machineCheck | simdException
  | interrupt
deriving DecidableEq

/-- The labels; the stubs from `interrupt_entry` on go by their vector. -/
inductive Label where
  | exDe | exDb | exNmi | exBp | exOf | exBr | exUd | exNm | exDf
  | exTs | exNp | exSs | exGp | exPf | exMf | exAc | exMc | exXm
  | interruptStub (vector : Nat)
  | interruptEntryCommon
deriving DecidableEq

/-- The instructions of the stubs and of the common entry. -/
inductive Instruction where
  | pushImm8 (imm : BitVec 8)
  | pushImm32 (imm : BitVec 32)
  | push (register : Register)
  | movRsp (register : Register)
  | load (offset : Nat) (register : Register)
  | subRsp (bytes : Nat)
  | addRsp (bytes : Nat)
  | call (handler : Handler)
  | jmp (target : Label)
  | pop (register : Register)
  | iretq
deriving DecidableEq

/-! ## The source -/

/-- `pushq $imm`: a byte is enough for what is below 128. -/
def pushq (imm : Nat) : Instruction :=
  if imm < 128 then .pushImm8 (BitVec.ofNat 8 imm)
  else .pushImm32 (BitVec.ofNat 32 imm)

/-- The registers in the order the entry pushes them. -/
def pushOrder : List Register :=
  [.rax, .rbx, .rcx, .rdx, .rsi, .rdi, .rbp, .r8, .r9, .r10, .r11, .r12,
    .r13, .r14, .r15]

/-- The registers in the order the exit pops them. -/
def popOrder : List Register :=
  [.r15, .r14, .r13, .r12, .r11, .r10, .r9, .r8, .rbp, .rdi, .rsi, .rdx,
    .rcx, .rbx, .rax]

/-- What follows the call in the macro `exception_entry`. -/
def exceptionExit : List Instruction :=
  .addRsp 8 :: popOrder.map .pop ++ [.addRsp 8, .iretq]

/-- The macro `exception_entry`. -/
def exceptionEntry (handler : Handler) (hasErrorCode : Bool) :
    List Instruction :=
  (if hasErrorCode then [] else [pushq 0]) ++ pushOrder.map .push ++
    [.movRsp .rdi, .load 120 .rsi, .subRsp 8, .call handler] ++ exceptionExit

/-- `exception_error_entry`: the processor has pushed an error code. -/
def exceptionErrorEntry (handler : Handler) : List Instruction :=
  exceptionEntry handler true

/-- `exception_noerror_entry`: the entry pushes a zero in place of the error
code. -/
def exceptionNoerrorEntry (handler : Handler) : List Instruction :=
  exceptionEntry handler false

/-- The instructions at each label. -/
def code : Label → List Instruction
  | .exDe => exceptionNoerrorEntry .divideError
  | .exDb => exceptionNoerrorEntry .debugException
  | .exNmi => exceptionNoerrorEntry .nmi
  | .exBp => exceptionNoerrorEntry .breakpoint
  | .exOf => exceptionNoerrorEntry .overflow
  | .exBr => exceptionNoerrorEntry .boundRangeExceeded
  | .exUd => exceptionNoerrorEntry .invalidOpcode
  | .exNm => exceptionNoerrorEntry .deviceNotAvailable
  | .exDf => exceptionErrorEntry .doubleFault
  | .exTs => exceptionErrorEntry .invalidTss
  | .exNp => exceptionErrorEntry .segmentNotPresent
  | .exSs => exceptionErrorEntry .stackFault
  | .exGp => exceptionErrorEntry .generalProtection
  | .exPf => exceptionErrorEntry .pageFault
  | .exMf => exceptionNoerrorEntry .mathFault
  | .exAc => exceptionErrorEntry .alignmentCheck
  | .exMc => exceptionNoerrorEntry .machineCheck
  | .exXm => exceptionNoerrorEntry .simdException
  | .interruptStub vector => [pushq vector, .jmp .interruptEntryCommon]
  | .interruptEntryCommon => exceptionErrorEntry .interrupt

/-! ## Execution -/

/-- Where the code leaves the straight line. -/
inductive Stop where
  | calls (handler : Handler) (rest : List Instruction) (cpu : Cpu)
  | jumps (target : Label) (cpu : Cpu)
  | resumes (context : Context)
  | runsOff (cpu : Cpu)

/-- `iretq` in 64-bit mode. -/
def iretq (cpu : Cpu) : Context where
  registers := cpu.registers
  rip := cpu.stack.word 0
  cs := cpu.stack.word 1
  rflags := cpu.stack.word 2
  rsp := cpu.stack.word 3
  ss := cpu.stack.word 4

/-- `push` on the processor's stack. -/
def Cpu.push (cpu : Cpu) (value : U64) : Cpu :=
  { cpu with stack := cpu.stack.push value }

/-- The processor with a new value in one register. -/
def Cpu.setRegister (cpu : Cpu) (register : Register) (value : U64) : Cpu :=
  { cpu with registers := Function.update cpu.registers register value }

/-- The processor with a new stack pointer. -/
def Cpu.moveRsp (cpu : Cpu) (pointer : U64) : Cpu :=
  { cpu with stack := { cpu.stack with pointer := pointer } }

/-- `pop` into a register. -/
def Cpu.pop (cpu : Cpu) (register : Register) : Cpu :=
  { registers := Function.update cpu.registers register cpu.stack.top
    stack := cpu.stack.drop }

/-- Runs instructions up to a call, a jump, the return or their end. -/
def run : List Instruction → Cpu → Stop
  | [], cpu => .runsOff cpu
  | .pushImm8 imm :: rest, cpu => run rest (cpu.push (imm.signExtend 64))
  | .pushImm32 imm :: rest, cpu => run rest (cpu.push (imm.signExtend 64))
  | .push register :: rest, cpu =>
      run rest (cpu.push (cpu.registers register))
  | .movRsp register :: rest, cpu =>
      run rest (cpu.setRegister register cpu.stack.pointer)
  | .load offset register :: rest, cpu =>
      run rest
        (cpu.setRegister register
          (cpu.stack.memory (cpu.stack.pointer + BitVec.ofNat 64 offset)))
  | .subRsp bytes :: rest, cpu =>
      run rest (cpu.moveRsp (cpu.stack.pointer - BitVec.ofNat 64 bytes))
  | .addRsp bytes :: rest, cpu =>
      run rest (cpu.moveRsp (cpu.stack.pointer + BitVec.ofNat 64 bytes))
  | .call handler :: rest, cpu => .calls handler rest cpu
  | .jmp target :: _, cpu => .jumps target cpu
  | .pop register :: rest, cpu => run rest (cpu.pop register)
  | .iretq :: _, cpu => .resumes (iretq cpu)

/-- Execution from a label on; the only jump is to the common code. -/
def enter (label : Label) (cpu : Cpu) : Stop :=
  match run (code label) cpu with
  | .jumps target cpu => run (code target) cpu
  | stop => stop

/-! ## The structure `exception_frame` -/

/-- The members of `exception_frame`. -/
inductive Field where
  | register (register : Register)
  | errorCode
  | rip
  | cs
  | rflags
  | rsp
  | ss
deriving DecidableEq

/-- A member with its size and its alignment. -/
structure Member where
  field : Field
  size : Nat
  alignment : Nat

/-- A member of type `ulong`. -/
def ulong (field : Field) : Member := ⟨field, 8, 8⟩

/-- The members in order.  The two packed structures of the union have bits
for two bytes and for one. -/
def exceptionFrame : List Member :=
  [ulong (.register .r15), ulong (.register .r14), ulong (.register .r13),
    ulong (.register .r12), ulong (.register .r11), ulong (.register .r10),
    ulong (.register .r9), ulong (.register .r8), ulong (.register .rbp),
    ulong (.register .rdi), ulong (.register .rsi), ulong (.register .rdx),
    ulong (.register .rcx), ulong (.register .rbx), ulong (.register .rax),
    ⟨.errorCode, 2, 1⟩, ulong .rip, ulong .cs, ulong .rflags, ulong .rsp,
    ulong .ss]

/-- The offset of a field, from the members which are left at a position. -/
def offsetFrom (field : Field) : Nat → List Member → Nat
  | position, [] => position
  | position, member :: rest =>
      let start :=
        (position + member.alignment - 1) / member.alignment * member.alignment
      if member.field = field then start
      else offsetFrom field (start + member.size) rest

/-- The offset of a member in `exception_frame`. -/
def offsetOf (field : Field) : Nat :=
  offsetFrom field 0 exceptionFrame

end NopOS.Traps.EntryCode
