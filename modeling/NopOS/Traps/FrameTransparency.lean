import NopOS.Traps.EntryCode

/-!
# Entry and exit undo each other

At the call the stack holds the exception frame: the pushed registers, the
error code and what the processor pushed.  A handler which leaves these words
alone returns to code which takes them off in the opposite order.
-/

namespace NopOS.Traps.FrameTransparency

open NopOS.Lib.WordStack
open NopOS.Traps.EntryCode

/-! ## Pushing and popping registers -/

/-- Registers pushed one after another. -/
def pushRegisters (cpu : Cpu) (registers : List Register) : Cpu :=
  registers.foldl (fun cpu register => cpu.push (cpu.registers register)) cpu

/-- Registers popped one after another. -/
def popRegisters (cpu : Cpu) (registers : List Register) : Cpu :=
  registers.foldl Cpu.pop cpu

/-- Pushes run one after another. -/
theorem run_push_map
    (registers : List Register) (rest : List Instruction) (cpu : Cpu) :
    run (registers.map .push ++ rest) cpu =
      run rest (pushRegisters cpu registers) := by
  induction registers generalizing cpu with
  | nil => rfl
  | cons register registers induction => exact induction _

/-- And so do pops. -/
theorem run_pop_map
    (registers : List Register) (rest : List Instruction) (cpu : Cpu) :
    run (registers.map .pop ++ rest) cpu =
      run rest (popRegisters cpu registers) := by
  induction registers generalizing cpu with
  | nil => rfl
  | cons register registers induction => exact induction _

/-- The register pushed last lies on top. -/
theorem holds_pushRegisters
    {cpu : Cpu} {words : List U64} (registers : List Register)
    (holds : cpu.stack.Holds words)
    (few : registers.length + words.length < 2 ^ 60) :
    (pushRegisters cpu registers).stack.Holds
      (registers.reverse.map cpu.registers ++ words) := by
  induction registers generalizing cpu words with
  | nil => exact holds
  | cons register registers induction =>
      have room : words.length < 2 ^ 60 := by omega
      have pushed := holds.push room (cpu.registers register)
      have later :
          registers.length + (cpu.registers register :: words).length <
            2 ^ 60 := by
        rw [List.length_cons] at few ⊢
        omega
      have rest :
          (pushRegisters (cpu.push (cpu.registers register))
                registers).stack.Holds
            (registers.reverse.map cpu.registers ++
              cpu.registers register :: words) :=
        induction pushed later
      rw [List.reverse_cons, List.map_append, List.append_assoc]
      exact rest

/-- Registers are popped to the values which lie there for them. -/
theorem popRegisters_spec
    {cpu : Cpu} {registers : List Register} {words : List U64}
    (value : Register → U64)
    (holds : cpu.stack.Holds (registers.map value ++ words)) :
    (popRegisters cpu registers).stack.Holds words ∧
      ∀ register,
        (popRegisters cpu registers).registers register =
          if register ∈ registers then value register
          else cpu.registers register := by
  induction registers generalizing cpu with
  | nil => exact ⟨holds, fun register => by simp [popRegisters]⟩
  | cons first registers induction =>
      have popped : (cpu.pop first).stack.Holds (registers.map value ++ words) :=
        holds.drop
      have firstValue : cpu.stack.top = value first := holds.top
      rcases induction popped with ⟨rest, values⟩
      refine ⟨rest, ?_⟩
      intro register
      have later := values register
      show (popRegisters (cpu.pop first) registers).registers register = _
      rw [later]
      by_cases inRest : register ∈ registers
      · rw [if_pos inRest, if_pos (List.mem_cons_of_mem first inRest)]
      · rw [if_neg inRest]
        by_cases same : register = first
        · subst register
          rw [if_pos List.mem_cons_self, ← firstValue]
          exact Function.update_self _ _ _
        · rw [if_neg (by simp [same, inRest])]
          exact Function.update_of_ne same _ _

/-! ## The frame at the call -/

/-- What the processor pushes, the last word first. -/
def contextWords (context : Context) : List U64 :=
  [context.rip, context.cs, context.rflags, context.rsp, context.ss]

theorem length_contextWords_lt (context : Context) :
    (contextWords context).length < 2 ^ 60 := by
  show 5 < 2 ^ 60
  decide

/-- The frame over a context, with what is in the slot of the error code. -/
def frameWords (context : Context) (errorCode : U64) : List U64 :=
  popOrder.map context.registers ++ errorCode :: contextWords context

/-- The value which a field of the frame stands for. -/
def fieldValue (context : Context) (errorCode : U64) : Field → U64
  | .register register => context.registers register
  | .errorCode => errorCode
  | .rip => context.rip
  | .cs => context.cs
  | .rflags => context.rflags
  | .rsp => context.rsp
  | .ss => context.ss

/-- The members of `exception_frame` are the words of the frame in order. -/
theorem frameWords_offsetOf
    (context : Context) (errorCode : U64) (field : Field) :
    offsetOf field = 8 * (offsetOf field / 8) ∧
      (frameWords context errorCode)[offsetOf field / 8]? =
        some (fieldValue context errorCode field) := by
  cases field with
  | register register =>
      cases register
      all_goals exact ⟨rfl, rfl⟩
  | errorCode => exact ⟨rfl, rfl⟩
  | rip => exact ⟨rfl, rfl⟩
  | cs => exact ⟨rfl, rfl⟩
  | rflags => exact ⟨rfl, rfl⟩
  | rsp => exact ⟨rfl, rfl⟩
  | ss => exact ⟨rfl, rfl⟩

/-- What a handler finds when it is called. -/
structure ReceivesFrame (context : Context) (errorCode : U64) (atCall : Cpu) :
    Prop where
  /-- The first argument is the address of the frame. -/
  fields :
    ∀ field,
      atCall.stack.memory
          (atCall.registers .rdi + BitVec.ofNat 64 (offsetOf field)) =
        fieldValue context errorCode field
  /-- The second argument is the word in the slot of the error code. -/
  vec : atCall.registers .rsi = errorCode
  above : atCall.registers .rdi = atCall.stack.pointer + 8

/-- The stack from the frame on. -/
def frameStack (cpu : Cpu) : Stack where
  pointer := cpu.stack.pointer + 8
  memory := cpu.stack.memory

/-- The handler returned, and the frame is what it was. -/
structure ReturnsTo (atCall returned : Cpu) : Prop where
  pointer : returned.stack.pointer = atCall.stack.pointer
  frame :
    ∀ i < 21,
      (frameStack returned).word i = (frameStack atCall).word i

/-- The state in which the handler is called, over the pushed registers. -/
def callState (pushed : Cpu) : Cpu :=
  ((pushed.setRegister .rdi pushed.stack.pointer).setRegister .rsi
    (pushed.stack.word 15)).moveRsp (pushed.stack.pointer - 8)

theorem frameStack_callState (pushed : Cpu) :
    frameStack (callState pushed) = pushed.stack := by
  have pointer : pushed.stack.pointer - 8 + 8 = pushed.stack.pointer :=
    BitVec.sub_add_cancel _ _
  show Stack.mk (pushed.stack.pointer - 8 + 8) pushed.stack.memory = _
  rw [pointer]

/-- The handler finds each member of the frame where the structure has it. -/
theorem receivesFrame_callState
    {pushed : Cpu} {context : Context} {errorCode : U64}
    (holds : pushed.stack.Holds (frameWords context errorCode)) :
    ReceivesFrame context errorCode (callState pushed) where
  fields field := by
    rcases frameWords_offsetOf context errorCode field with ⟨offset, found⟩
    have word := holds _ _ found
    rw [offset]
    exact word
  vec := holds 15 errorCode rfl
  above := (BitVec.sub_add_cancel pushed.stack.pointer 8).symm

/-- From the stack with an error code to the call. -/
theorem run_exceptionErrorEntry
    {cpu : Cpu} {context : Context} {errorCode : U64} (handler : Handler)
    (registers : cpu.registers = context.registers)
    (holds : cpu.stack.Holds (errorCode :: contextWords context)) :
    ∃ atCall,
      run (exceptionErrorEntry handler) cpu =
          .calls handler exceptionExit atCall ∧
        ReceivesFrame context errorCode atCall ∧
          (frameStack atCall).Holds (frameWords context errorCode) := by
  have few :
      pushOrder.length + (errorCode :: contextWords context).length <
        2 ^ 60 := by
    show 15 + 6 < 2 ^ 60
    decide
  have pushed := holds_pushRegisters pushOrder holds few
  have order :
      pushOrder.reverse.map cpu.registers ++
          errorCode :: contextWords context =
        frameWords context errorCode := by
    rw [registers]
    rfl
  rw [order] at pushed
  refine
    ⟨callState (pushRegisters cpu pushOrder), ?_,
      receivesFrame_callState pushed, ?_⟩
  · show run (pushOrder.map .push ++ _) cpu = _
    rw [run_push_map]
    rfl
  · rw [frameStack_callState]
    exact pushed

/-- Without an error code of the processor the stub pushes 0. -/
theorem run_exceptionNoerrorEntry
    {cpu : Cpu} {context : Context} (handler : Handler)
    (registers : cpu.registers = context.registers)
    (holds : cpu.stack.Holds (contextWords context)) :
    ∃ atCall,
      run (exceptionNoerrorEntry handler) cpu =
          .calls handler exceptionExit atCall ∧
        ReceivesFrame context 0 atCall ∧
          (frameStack atCall).Holds (frameWords context 0) := by
  have uniform : (cpu.push 0).stack.Holds (0 :: contextWords context) :=
    holds.push (length_contextWords_lt context) 0
  exact run_exceptionErrorEntry handler registers uniform

theorem mem_popOrder (register : Register) : register ∈ popOrder := by
  cases register <;> decide

/-- `iretq` takes the five words back. -/
theorem iretq_of_holds
    {cpu : Cpu} {context : Context}
    (registers : cpu.registers = context.registers)
    (holds : cpu.stack.Holds (contextWords context)) :
    iretq cpu = context := by
  have rip := holds 0 context.rip rfl
  have cs := holds 1 context.cs rfl
  have rflags := holds 2 context.rflags rfl
  have rsp := holds 3 context.rsp rfl
  have ss := holds 4 context.ss rfl
  rw [iretq, registers, rip, cs, rflags, rsp, ss]

/-- After the handler the interrupted context is resumed. -/
theorem run_exceptionExit
    {atCall returned : Cpu} {context : Context} {errorCode : U64}
    (holds : (frameStack atCall).Holds (frameWords context errorCode))
    (returns : ReturnsTo atCall returned) :
    run exceptionExit returned = .resumes context := by
  have kept : (frameStack returned).Holds (frameWords context errorCode) :=
    holds.congr returns.frame
  -- the first instruction takes off the word which aligned the stack
  let atFrame : Cpu := ⟨returned.registers, frameStack returned⟩
  have popped :
      (popRegisters atFrame popOrder).stack.Holds
          (errorCode :: contextWords context) ∧
        ∀ register,
          (popRegisters atFrame popOrder).registers register =
            if register ∈ popOrder then context.registers register
            else atFrame.registers register :=
    popRegisters_spec context.registers kept
  show run (popOrder.map .pop ++ [.addRsp 8, .iretq]) atFrame = _
  rw [run_pop_map]
  have registers :
      (popRegisters atFrame popOrder).registers = context.registers := by
    funext register
    rw [popped.2 register, if_pos (mem_popOrder register)]
  have last :
      iretq
          ⟨(popRegisters atFrame popOrder).registers,
            (popRegisters atFrame popOrder).stack.drop⟩ =
        context :=
    iretq_of_holds registers popped.1.drop
  exact congrArg Stop.resumes last

end NopOS.Traps.FrameTransparency
