import NopOS.Lib.Interleaving
import NopOS.Lib.Blocks

/-!
# Start-up of the application processors

`smpboot64` takes a stack off the list headed by `smp_stack_free`.  Nothing in
the kernel puts a stack on this list: the head is a zero word of `.bss`.  The
first processor which succeeds therefore takes the null pointer, and its stack
is the page the trampoline was copied to.
-/

namespace NopOS.Smp.ApStartup

open NopOS.Lib.Blocks
open NopOS.Lib.LabelledRun
open NopOS.Lib.Interleaving

/-- A 64-bit machine word. -/
abbrev U64 := BitVec 64

/-- The quad word at each address. -/
abbrev Memory := U64 → U64

/-- A processor in `smpboot64`, by the instruction it executes next. -/
inductive Ap where
  | loadHead
  | loadNext (rax : U64)
  | cmpxchg (rax rbx : U64)
  | setStack (rax : U64)
  | smpMain (rsp : U64)
deriving DecidableEq

/-- `lock cmpxchg %rbx, smp_stack_free` is taken with its `jnz 1b`. -/
def smpboot64 (smpStackFree : U64) : Program Ap Memory
  | .loadHead, memory =>
      some (.loadNext (memory smpStackFree), memory)
  | .loadNext rax, memory =>
      some (.cmpxchg rax (memory (rax + 4096)), memory)
  | .cmpxchg rax rbx, memory =>
      if memory smpStackFree = rax then
        some (.setStack rax, Function.update memory smpStackFree rbx)
      else some (.loadHead, memory)
  | .setStack rax, memory => some (.smpMain (rax + 4096), memory)
  | .smpMain _, _ => none

/-- `n` application processors beside the memory they share. -/
abbrev SmpState (n : Nat) := State (Fin n) Ap Memory

/-- `n` processors sent to `smpboot64`. -/
def launched (n : Nat) (memory : Memory) : SmpState n where
  shared := memory
  locals := fun _ => .loadHead

/-- Runs of the launched processors through `smpboot64`, one instruction of one
processor at a time. -/
abbrev ApRun (smpStackFree : U64) {n : Nat} (memory : Memory) :=
  Execution (smpboot64 smpStackFree) (launched n memory)

/-! ## The stacks -/

/-- The stack which ends at a stack pointer. -/
def stackBelow (rsp : U64) : Block where
  start := (rsp - 4096).toNat
  size := 4096

/-- What the stacks in use must satisfy. -/
structure StacksSafe {n : Nat} (trampoline : Nat) (state : SmpState n) :
    Prop where
  disjoint :
    ∀ i j : Fin n, i ≠ j →
      ∀ first second,
        state.locals i = .smpMain first →
          state.locals j = .smpMain second →
            Block.Apart (stackBelow first) (stackBelow second)
  notNull :
    ∀ i rsp, state.locals i = .smpMain rsp → (stackBelow rsp).start ≠ 0
  offTrampoline :
    ∀ i rsp, state.locals i = .smpMain rsp →
      Block.Apart (stackBelow rsp) ⟨0, trampoline⟩

/-! ## Who takes the null pointer -/

/-- The processor has taken the stack at 0. -/
def TookNull (ap : Ap) : Prop :=
  ap = .setStack 0 ∨ ap = .smpMain 4096

/-- The processor has taken no stack, and only the null pointer was seen. -/
def SawNull (ap : Ap) : Prop :=
  ap = .loadHead ∨ ap = .loadNext 0 ∨ ∃ rbx, ap = .cmpxchg 0 rbx

/-- Until a processor takes the null pointer, it is all there is. -/
def NullFirst (smpStackFree : U64) {n : Nat} (state : SmpState n) : Prop :=
  (state.shared smpStackFree = 0 ∧ ∀ i, SawNull (state.locals i)) ∨
    ∃ i, TookNull (state.locals i)

/-- A step leaves the null pointer all there is until it is taken. -/
theorem nullFirst_step
    {smpStackFree : U64} {n : Nat} {before after : SmpState n} {i : Fin n}
    (nullFirst : NullFirst smpStackFree before)
    (step : Step (smpboot64 smpStackFree) before i after) :
    NullFirst smpStackFree after := by
  have runs := step.runs
  rcases nullFirst with ⟨headNull, sawNull⟩ | ⟨taker, took⟩
  · have others :
        ∀ j, j ≠ i → SawNull (after.locals j) := by
      intro j different
      rw [step.locals_of_ne different]
      exact sawNull j
    have own (saw : SawNull (after.locals i)) :
        ∀ j, SawNull (after.locals j) := by
      intro j
      by_cases same : j = i
      · exact same ▸ saw
      · exact others j same
    rcases sawNull i with loading | loaded | ⟨rbx, exchanging⟩
    · rw [loading, smpboot64, headNull] at runs
      simp only [Option.some.injEq, Prod.mk.injEq] at runs
      rcases runs with ⟨localEq, sharedEq⟩
      left
      refine ⟨by rw [← sharedEq, headNull], own ?_⟩
      exact Or.inr (Or.inl localEq.symm)
    · rw [loaded, smpboot64] at runs
      simp only [Option.some.injEq, Prod.mk.injEq] at runs
      rcases runs with ⟨localEq, sharedEq⟩
      left
      refine ⟨by rw [← sharedEq, headNull], own ?_⟩
      exact Or.inr (Or.inr ⟨_, localEq.symm⟩)
    · rw [exchanging, smpboot64, if_pos headNull] at runs
      simp only [Option.some.injEq, Prod.mk.injEq] at runs
      exact Or.inr ⟨i, Or.inl runs.1.symm⟩
  · right
    by_cases same : taker = i
    · subst taker
      refine ⟨i, Or.inr ?_⟩
      rcases took with popped | entered
      · rw [popped, smpboot64] at runs
        simp only [Option.some.injEq, Prod.mk.injEq] at runs
        rw [← runs.1]
        rfl
      · rw [entered, smpboot64] at runs
        simp at runs
    · refine ⟨taker, ?_⟩
      rw [step.locals_of_ne same]
      exact took

/-- And so does every run from an unseeded list. -/
theorem nullFirst_of_run
    {smpStackFree : U64} {n : Nat} {memory : Memory}
    {trace : List (Fin n)} {state : SmpState n}
    (unseeded : memory smpStackFree = 0)
    (run : ApRun smpStackFree memory trace state) :
    NullFirst smpStackFree state :=
  run.invariant (NullFirst smpStackFree)
    (Or.inl ⟨unseeded, fun _ => Or.inl rfl⟩)
    fun _ _ _ nullFirst step => nullFirst_step nullFirst step

/-- A bring-up in which every processor has a stack is never safe. -/
theorem completed_not_safe
    {smpStackFree : U64} {n : Nat} {memory : Memory} {trampoline : Nat}
    {trace : List (Fin n)} {state : SmpState n}
    (unseeded : memory smpStackFree = 0) (someAp : 0 < n)
    (run : ApRun smpStackFree memory trace state)
    (completed : ∀ i, ∃ rsp, state.locals i = .smpMain rsp) :
    ¬ StacksSafe trampoline state := by
  intro safe
  rcases nullFirst_of_run unseeded run with ⟨-, sawNull⟩ | ⟨i, took⟩
  · rcases completed ⟨0, someAp⟩ with ⟨rsp, entered⟩
    rcases sawNull ⟨0, someAp⟩ with saw | saw | ⟨rbx, saw⟩ <;>
      rw [entered] at saw <;>
      simp at saw
  · rcases took with popped | entered
    · rcases completed i with ⟨rsp, entered⟩
      rw [popped] at entered
      simp at entered
    · exact safe.notNull i _ entered (by decide)

/-- A processor alone reaches `smp_main` with the stack at 0. -/
theorem alone_takes_null
    {smpStackFree : U64} {n : Nat} {memory : Memory}
    (unseeded : memory smpStackFree = 0) (i : Fin n) :
    ∃ state,
      ApRun smpStackFree memory (List.replicate 4 i) state ∧
        state.locals i = .smpMain 4096 := by
  have runs :
      alone (smpboot64 smpStackFree) 4 .loadHead memory =
        some (.smpMain 4096,
          Function.update memory smpStackFree (memory 4096)) := by
    simp only [alone, smpboot64, unseeded, if_true]
    rfl
  have idle : ApRun smpStackFree memory [] (launched n memory) := .start
  exact
    ⟨_, idle.alone i 4 runs, Function.update_self _ _ _⟩

/-! ## Bring-up is safe only without application processors -/

/--
The stacks of `n` processors are safe in every interleaving exactly if there
are no processors: the list of stacks is never filled.
-/
theorem ap_stacks_safe_iff
    {smpStackFree : U64} {memory : Memory} {trampoline : Nat}
    (unseeded : memory smpStackFree = 0) (n : Nat) :
    (∀ (trace : List (Fin n)) (state : SmpState n),
        ApRun smpStackFree memory trace state →
          StacksSafe trampoline state) ↔
      n = 0 := by
  constructor
  · intro safe
    by_contra someAp
    rcases
        alone_takes_null unseeded
          (⟨0, Nat.pos_of_ne_zero someAp⟩ : Fin n) with
      ⟨state, run, entered⟩
    exact (safe _ state run).notNull _ _ entered (by decide)
  · rintro rfl trace state run
    exact ⟨fun i => i.elim0, fun i => i.elim0, fun i => i.elim0⟩

/-- With two processors there is an interleaving which is not safe. -/
theorem ap_stacks_safe_iff_two :
    ¬ ∀ (trace : List (Fin 2)) (state : SmpState 2),
        ApRun 0x300000 (fun _ => 0) trace state →
          StacksSafe 64 state :=
  mt (ap_stacks_safe_iff rfl 2).1 (by decide)

/-- Two processors, over zeroed low memory, enter with one and the same stack. -/
theorem two_aps_share_the_null_page :
    ∃ state : SmpState 2,
      ApRun 0x300000 (fun _ => 0) [0, 0, 0, 0, 1, 1, 1, 1] state ∧
        state.locals 0 = .smpMain 4096 ∧
          state.locals 1 = .smpMain 4096 ∧
            ¬ StacksSafe 64 state := by
  have idle :
      ApRun 0x300000 (fun _ => 0) [] (launched 2 fun _ => 0) := .start
  have first := idle.alone 0 4 rfl
  have second := first.alone 1 4 rfl
  refine ⟨_, second, rfl, rfl, ?_⟩
  intro safe
  exact safe.notNull 0 _ rfl (by decide)

end NopOS.Smp.ApStartup
