import NopOS.Lib.LinkedList
import NopOS.Smp.ApStartup

/-!
# Processors which pop their stacks

With a list of stacks behind `smp_stack_free`, the loop of `smpboot64` is a
removal from the head of the list by compare-and-swap.  A stack never returns
to the list, so that the link read before the swap is still the link of the
head when the swap succeeds.
-/

namespace NopOS.Smp.StackPop

open NopOS.Lib.Blocks
open NopOS.Lib.LinkedList
open NopOS.Lib.Interleaving
open NopOS.Smp.ApStartup

/-! ## The list of stacks -/

/-- `init_stack::next`, behind the 4096 bytes of the stack. -/
def nextOf (memory : Memory) (node : U64) : U64 := memory (node + 4096)

/-- A list of stacks, none of whose links is the word of the head. -/
structure FreeList (smpStackFree : U64) (memory : Memory)
    (nodes : List U64) : Prop where
  distinct : nodes.Nodup
  linked : Linked (nextOf memory) 0 (memory smpStackFree) nodes
  apart :
    ∀ node ∈ nodes,
      Block.Apart ⟨(node + 4096).toNat, 8⟩ ⟨smpStackFree.toNat, 8⟩

theorem FreeList.link_ne
    {smpStackFree : U64} {memory : Memory} {nodes : List U64}
    (free : FreeList smpStackFree memory nodes) {node : U64}
    (member : node ∈ nodes) : node + 4096 ≠ smpStackFree := by
  intro same
  have apart := free.apart node member
  rw [same] at apart
  simp only [Block.Apart, Block.stop] at apart
  omega

/-- The stack which a processor has taken. -/
def obtained : Ap → Option U64
  | .setStack rax => some rax
  | .smpMain rsp => some (rsp - 4096)
  | _ => none

/-- The stacks which were taken, by the processors in order. -/
def obtainedNodes {m : Nat} (state : SmpState m) : List U64 :=
  holdings obtained (List.finRange m) state

/-! ## The invariant -/

/-- What a processor holds in its registers. -/
def Registers (memory : Memory) (nodes : List U64) : Ap → Prop
  | .loadNext rax => rax ∈ nodes
  | .cmpxchg rax rbx => rax ∈ nodes ∧ rbx = nextOf memory rax
  | _ => True

/-- The stacks taken and those still linked are the list, whose links have
not changed. -/
structure Popping (smpStackFree : U64) (memory : Memory) (nodes : List U64)
    {m : Nat} (state : SmpState m) : Prop where
  split :
    ∃ rest,
      Linked (nextOf state.shared) 0 (state.shared smpStackFree) rest ∧
        (obtainedNodes state ++ rest).Perm nodes
  links : ∀ node ∈ nodes, nextOf state.shared node = nextOf memory node
  registers : ∀ i, Registers memory nodes (state.locals i)

section Steps

variable {smpStackFree : U64} {memory : Memory} {nodes : List U64} {m : Nat}

theorem obtainedNodes_launched :
    obtainedNodes (launched m memory) = [] := by
  rw [obtainedNodes, holdings, List.filterMap_eq_nil_iff]
  exact fun _ _ => rfl

/-- The whole list is free at first. -/
theorem popping_launched (free : FreeList smpStackFree memory nodes) :
    Popping smpStackFree memory nodes (launched m memory) where
  split := by
    refine ⟨nodes, free.linked, ?_⟩
    rw [obtainedNodes_launched]
    exact List.Perm.refl _
  links _ _ := rfl
  registers _ := trivial

/-- While a processor is without a stack, the head is a stack of the list. -/
theorem Popping.head_mem
    {state : SmpState m} (popping : Popping smpStackFree memory nodes state)
    (enough : m ≤ nodes.length) {i : Fin m}
    (without : obtained (state.locals i) = none) :
    ∃ rest,
      Linked (nextOf state.shared) 0
          (nextOf state.shared (state.shared smpStackFree)) rest ∧
        (obtainedNodes state ++ state.shared smpStackFree :: rest).Perm
          nodes := by
  rcases popping.split with ⟨rest, linked, permuted⟩
  have fewer := length_holdings_lt (List.mem_finRange i) without
  have total := permuted.length_eq
  rw [List.length_append, obtainedNodes] at total
  rw [List.length_finRange] at fewer
  cases rest with
  | nil =>
      rw [List.length_nil] at total
      omega
  | cons node rest =>
      rcases linked with ⟨isHead, -, later⟩
      rw [isHead]
      exact ⟨rest, later, permuted⟩

/-- A step which leaves the memory and takes no stack. -/
theorem Popping.of_keep
    {before after : SmpState m} {i : Fin m}
    (popping : Popping smpStackFree memory nodes before)
    (step : Step (smpboot64 smpStackFree) before i after)
    (memoryKept : after.shared = before.shared)
    (keep : obtained (after.locals i) = obtained (before.locals i))
    (own : Registers memory nodes (after.locals i)) :
    Popping smpStackFree memory nodes after where
  split := by
    rcases popping.split with ⟨rest, linked, permuted⟩
    have same : obtainedNodes after = obtainedNodes before :=
      step.holdings_of_keep keep
    exact ⟨rest, memoryKept ▸ linked, same ▸ permuted⟩
  links node member := by
    rw [memoryKept]
    exact popping.links node member
  registers j := by
    by_cases other : j = i
    · exact other ▸ own
    · rw [step.locals_of_ne other]
      exact popping.registers j

/-- What one instruction of a processor can be. -/
theorem step_cases {before after : SmpState m} {i : Fin m}
    (step : Step (smpboot64 smpStackFree) before i after) :
    (before.locals i = .loadHead ∧
        after.locals i = .loadNext (before.shared smpStackFree) ∧
          after.shared = before.shared) ∨
      (∃ rax,
        before.locals i = .loadNext rax ∧
          after.locals i = .cmpxchg rax (nextOf before.shared rax) ∧
            after.shared = before.shared) ∨
      (∃ rbx,
        before.locals i = .cmpxchg (before.shared smpStackFree) rbx ∧
          after.locals i = .setStack (before.shared smpStackFree) ∧
            after.shared = Function.update before.shared smpStackFree rbx) ∨
      (∃ rax rbx,
        before.locals i = .cmpxchg rax rbx ∧
          after.locals i = .loadHead ∧ after.shared = before.shared) ∨
      ∃ rax,
        before.locals i = .setStack rax ∧
          after.locals i = .smpMain (rax + 4096) ∧
            after.shared = before.shared := by
  have runs := step.runs
  cases position : before.locals i with
  | loadHead =>
      simp only [position, smpboot64, Option.some.injEq, Prod.mk.injEq] at runs
      exact Or.inl ⟨rfl, runs.1.symm, runs.2.symm⟩
  | loadNext rax =>
      simp only [position, smpboot64, Option.some.injEq, Prod.mk.injEq] at runs
      exact Or.inr (Or.inl ⟨rax, rfl, runs.1.symm, runs.2.symm⟩)
  | cmpxchg rax rbx =>
      by_cases equal : before.shared smpStackFree = rax
      · simp only [position, smpboot64, if_pos equal, Option.some.injEq,
          Prod.mk.injEq] at runs
        subst equal
        exact Or.inr (Or.inr (Or.inl ⟨rbx, rfl, runs.1.symm, runs.2.symm⟩))
      · simp only [position, smpboot64, if_neg equal, Option.some.injEq,
          Prod.mk.injEq] at runs
        exact Or.inr (Or.inr (Or.inr (Or.inl
          ⟨rax, rbx, rfl, runs.1.symm, runs.2.symm⟩)))
  | setStack rax =>
      simp only [position, smpboot64, Option.some.injEq, Prod.mk.injEq] at runs
      exact Or.inr (Or.inr (Or.inr (Or.inr
        ⟨rax, rfl, runs.1.symm, runs.2.symm⟩)))
  | smpMain rsp => simp [position, smpboot64] at runs

/-- A swap which succeeds takes the head off the list. -/
theorem Popping.of_take
    {before after : SmpState m} {i : Fin m}
    (free : FreeList smpStackFree memory nodes) (enough : m ≤ nodes.length)
    (popping : Popping smpStackFree memory nodes before)
    (step : Step (smpboot64 smpStackFree) before i after) {rbx : U64}
    (position :
      before.locals i = .cmpxchg (before.shared smpStackFree) rbx)
    (taken : after.locals i = .setStack (before.shared smpStackFree))
    (swapped :
      after.shared = Function.update before.shared smpStackFree rbx) :
    Popping smpStackFree memory nodes after := by
  have without : obtained (before.locals i) = none := by
    rw [position]
    rfl
  have takes :
      obtained (after.locals i) = some (before.shared smpStackFree) := by
    rw [taken]
    rfl
  have seen := popping.registers i
  rw [position] at seen
  -- The link which was read is still that of the head.
  have newHead : rbx = nextOf before.shared (before.shared smpStackFree) :=
    seen.2.trans (popping.links _ seen.1).symm
  have linkKept (node : U64) (member : node ∈ nodes) :
      nextOf after.shared node = nextOf before.shared node := by
    rw [swapped]
    exact Function.update_of_ne (free.link_ne member) _ _
  rcases popping.head_mem enough without with ⟨rest, linked, permuted⟩
  refine ⟨⟨rest, ?_, ?_⟩, ?_, ?_⟩
  · have head :
        after.shared smpStackFree =
          nextOf before.shared (before.shared smpStackFree) := by
      rw [swapped, Function.update_self, newHead]
    rw [head]
    apply linked.congr
    intro node member
    apply linkKept
    exact permuted.subset (List.mem_append_right _
      (List.mem_cons_of_mem _ member))
  · have holdings :=
      step.holdings_of_take (List.mem_finRange i) (List.nodup_finRange m)
        without takes
    exact ((holdings.append_right rest).trans
      List.perm_middle.symm).trans permuted
  · intro node member
    rw [linkKept node member]
    exact popping.links node member
  · intro j
    by_cases other : j = i
    · rw [other, taken]
      trivial
    · rw [step.locals_of_ne other]
      exact popping.registers j

/-- A step takes the head of the list, or nothing. -/
theorem popping_step
    {before after : SmpState m} {i : Fin m}
    (free : FreeList smpStackFree memory nodes) (enough : m ≤ nodes.length)
    (popping : Popping smpStackFree memory nodes before)
    (step : Step (smpboot64 smpStackFree) before i after) :
    Popping smpStackFree memory nodes after := by
  rcases step_cases step with
    ⟨position, next, kept⟩ | ⟨rax, position, next, kept⟩ |
      ⟨rbx, position, next, swapped⟩ | ⟨rax, rbx, position, next, kept⟩ |
      ⟨rax, position, next, kept⟩
  · have without : obtained (before.locals i) = none := by
      rw [position]
      rfl
    rcases popping.head_mem enough without with ⟨rest, -, permuted⟩
    apply popping.of_keep step kept
    · rw [next, position]
      rfl
    · rw [next]
      exact permuted.subset (List.mem_append_right _ List.mem_cons_self)
  · have seen := popping.registers i
    rw [position] at seen
    apply popping.of_keep step kept
    · rw [next, position]
      rfl
    · rw [next]
      exact ⟨seen, popping.links rax seen⟩
  · exact popping.of_take free enough step position next swapped
  · apply popping.of_keep step kept
    · rw [next, position]
      rfl
    · rw [next]
      trivial
  · apply popping.of_keep step kept
    · rw [next, position]
      exact congrArg some (BitVec.add_sub_cancel rax 4096)
    · rw [next]
      trivial

end Steps

/-! ## All interleavings -/

/-- What is taken and what is left is the list, after every run. -/
theorem popping_of_run
    {smpStackFree : U64} {memory : Memory} {nodes : List U64} {m : Nat}
    (free : FreeList smpStackFree memory nodes) (enough : m ≤ nodes.length)
    {trace : List (Fin m)} {state : SmpState m}
    (run : ApRun smpStackFree memory trace state) :
    Popping smpStackFree memory nodes state :=
  run.invariant (Popping smpStackFree memory nodes) (popping_launched free)
    fun _ _ _ popping step => popping_step free enough popping step

/-- In every interleaving of at most as many processors as there are stacks,
those which have finished have stacks of the list, no two the same, and the
stacks taken and those still linked make up the list. -/
theorem ap_stack_pop_correct
    {smpStackFree : U64} {memory : Memory} {nodes : List U64}
    (free : FreeList smpStackFree memory nodes) {m : Nat}
    (enough : m ≤ nodes.length) {trace : List (Fin m)} {state : SmpState m}
    (run : ApRun smpStackFree memory trace state) :
    (∀ i rsp, state.locals i = .smpMain rsp →
        ∃ node ∈ nodes, rsp = node + 4096) ∧
      (∀ i j, i ≠ j → ∀ first second,
        state.locals i = .smpMain first →
          state.locals j = .smpMain second →
            first - 4096 ≠ second - 4096) ∧
        ∃ rest,
          Linked (nextOf state.shared) 0 (state.shared smpStackFree) rest ∧
            (obtainedNodes state ++ rest).Perm nodes := by
  have popping := popping_of_run free enough run
  rcases popping.split with ⟨rest, linked, permuted⟩
  have once : (obtainedNodes state).Nodup :=
    (List.nodup_append.mp (permuted.symm.nodup free.distinct)).1
  have finished {i : Fin m} {rsp : U64}
      (position : state.locals i = .smpMain rsp) :
      obtained (state.locals i) = some (rsp - 4096) := by
    rw [position]
    rfl
  refine ⟨?_, ?_, rest, linked, permuted⟩
  · intro i rsp position
    have taken : rsp - 4096 ∈ obtainedNodes state :=
      mem_holdings.mpr ⟨i, List.mem_finRange i, finished position⟩
    refine ⟨rsp - 4096, permuted.subset (List.mem_append_left _ taken), ?_⟩
    exact (BitVec.sub_add_cancel rsp 4096).symm
  · intro i j different first second firstDone secondDone
    exact holdings_ne once (List.mem_finRange i) (List.mem_finRange j)
      different (finished firstDone) (finished secondDone)

/-- Two stacks, at 64 KiB and at 128 KiB. -/
def twoStacks : Memory := fun address =>
  if address = 0x300000 then 0x10000
  else if address = 0x11000 then 0x20000
  else 0

/-- A list of two stacks. -/
theorem freeList_twoStacks :
    FreeList 0x300000 twoStacks [0x10000, 0x20000] where
  distinct := by decide
  linked := ⟨rfl, by decide, rfl, by decide, rfl⟩
  apart := by
    simp only [List.forall_mem_cons]
    exact ⟨Or.inl (by decide), Or.inl (by decide), nofun⟩

/-- Two processors, one after the other, take both. -/
theorem ap_stack_pop_correct_two :
    ∃ state : SmpState 2,
      ApRun 0x300000 twoStacks [0, 0, 0, 0, 1, 1, 1, 1] state ∧
        state.locals 0 = .smpMain 0x11000 ∧
          state.locals 1 = .smpMain 0x21000 ∧
            ∃ rest,
              Linked (nextOf state.shared) 0 (state.shared 0x300000) rest ∧
                (obtainedNodes state ++ rest).Perm [0x10000, 0x20000] := by
  have idle : ApRun 0x300000 twoStacks [] (launched 2 twoStacks) := .start
  have first := idle.alone 0 4 rfl
  have second := first.alone 1 4 rfl
  refine ⟨_, second, rfl, rfl, ?_⟩
  exact (ap_stack_pop_correct freeList_twoStacks (by decide) second).2.2

end NopOS.Smp.StackPop
