import NopOS.Lib.LabelledRun
import NopOS.Lib.StatefulProgram
import NopOS.Lib.Blocks

/-!
# The ACPI heap

`AcpiOsAllocate` moves a mark through a static array, and `AcpiOsFree` moves
it back if it is given the most recent allocation.  The remembered pointer
and size stay after such a free.  They do no harm because no block which is
still held starts at the remembered pointer unless it is the topmost one.
-/

namespace NopOS.Acpi.Allocator

open NopOS.Lib.Blocks
open NopOS.Lib.StatefulProgram
open NopOS.Lib.LabelledRun

/-- The three static variables. -/
structure AcpiHeap where
  lastPointer : BitVec 64
  lastPointerSize : BitVec 64
  allocated : BitVec 32

/-- Nothing is allocated. -/
def AcpiHeap.initial : AcpiHeap where
  lastPointer := 0
  lastPointerSize := 0
  allocated := 0

/-- The loop after the message `ENOMEM!` does not end. -/
inductive Fault where
  | enomem
deriving DecidableEq

/-- What a function of the source does to the static variables. -/
abbrev Exec := EStateM Fault AcpiHeap

/-- `sizeof(memory)`. -/
def memorySize : BitVec 64 := 1024 * 175

/-- `acpi_allocated` converted to `ACPI_SIZE`. -/
def AcpiHeap.mark (heap : AcpiHeap) : BitVec 64 :=
  heap.allocated.signExtend 64

/-- `AcpiOsAllocate(Size)`, with the array `memory` at an address. -/
def acpiOsAllocate (memory size : BitVec 64) : Exec (BitVec 64) := do
  let heap ← get
  if heap.mark + size > memorySize then
    throw .enomem
  let chunk := memory + heap.mark
  modify fun heap =>
    { lastPointer := chunk
      lastPointerSize := size
      allocated := (heap.mark + size).setWidth 32 }
  return chunk

/-- `AcpiOsFree(Memory)`. -/
def acpiOsFree (pointer : BitVec 64) : Exec Unit := do
  let heap ← get
  if pointer = heap.lastPointer then
    modify fun heap =>
      { heap with
        allocated := (heap.mark - heap.lastPointerSize).setWidth 32 }

/-! ## Calls and runs -/

/-- Where the linker placed the array. -/
structure Array175K where
  address : BitVec 64
  below : address.toNat + 179200 < 2 ^ 64

/-- The heap and the blocks ACPICA holds. -/
structure State where
  heap : AcpiHeap
  live : List Block

/-- The two calls, with their arguments. -/
inductive AllocatorCall where
  | allocate (size : BitVec 64)
  | free (pointer : BitVec 64)

/-- A call which returned. -/
inductive AllocatorStep (array : Array175K) :
    State → AllocatorCall → State → Prop where
  | allocate
      {before : State} {size chunk : BitVec 64} {after : AcpiHeap}
      (positive : 1 ≤ size.toNat) (small : size.toNat < 2 ^ 31)
      (returns :
        acpiOsAllocate array.address size before.heap = .ok chunk after) :
      AllocatorStep array before (.allocate size)
        ⟨after, ⟨chunk.toNat, size.toNat⟩ :: before.live⟩
  | free
      {before : State} {pointer : BitVec 64} {after : AcpiHeap}
      (held : ∃ block ∈ before.live, block.start = pointer.toNat)
      (returns : acpiOsFree pointer before.heap = .ok () after) :
      AllocatorStep array before (.free pointer)
        ⟨after, release pointer.toNat before.live⟩

/-- Calls one after the other from the empty array. -/
abbrev AllocatorRun (array : Array175K) :=
  Run (AllocatorStep array) ⟨AcpiHeap.initial, []⟩

/-! ## The calls on a mark inside the array -/

section Mark

variable {heap : AcpiHeap} {memory size pointer chunk : BitVec 64}
    {after : AcpiHeap}

theorem toNat_mark (inside : heap.allocated.toNat ≤ 179200) :
    heap.mark.toNat = heap.allocated.toNat := by
  have positive : heap.allocated.msb = false := by
    rw [BitVec.msb_eq_false_iff_two_mul_lt]
    omega
  rw [AcpiHeap.mark, BitVec.signExtend_eq_setWidth_of_msb_false positive,
    BitVec.toNat_setWidth]
  omega

/-- The sum which is compared, if it does not wrap. -/
theorem toNat_sum
    (inside : heap.allocated.toNat ≤ 179200)
    (noWrap : heap.allocated.toNat + size.toNat < 2 ^ 64) :
    (heap.mark + size).toNat = heap.allocated.toNat + size.toNat := by
  rw [BitVec.toNat_add, toNat_mark inside, Nat.mod_eq_of_lt noWrap]

/-- What is returned and kept when the comparison lets the request pass. -/
theorem acpiOsAllocate_run
    (passes : (heap.mark + size).toNat ≤ 179200) :
    acpiOsAllocate memory size heap =
      .ok (memory + heap.mark)
        { lastPointer := memory + heap.mark
          lastPointerSize := size
          allocated := (heap.mark + size).setWidth 32 } := by
  have notLarge : ¬ heap.mark + size > memorySize := by
    rw [gt_iff_lt, BitVec.lt_def, not_lt]
    exact passes
  rw [acpiOsAllocate, bind_of_ok (get_run heap), if_neg notLarge]
  rfl

/-- A size beyond what is left is refused, and the heap stays as it was. -/
theorem acpiOsAllocate_enomem
    (tooLarge : 179200 < (heap.mark + size).toNat) :
    acpiOsAllocate memory size heap = .error .enomem heap := by
  have large : heap.mark + size > memorySize := by
    rw [gt_iff_lt, BitVec.lt_def]
    exact tooLarge
  rw [acpiOsAllocate, bind_of_ok (get_run heap), if_pos large,
    bind_of_error (throw_run _ _)]

/-- A chunk starts where the last one ended. -/
theorem acpiOsAllocate_returns
    (inside : heap.allocated.toNat ≤ 179200)
    (noWrap : heap.allocated.toNat + size.toNat < 2 ^ 64)
    (returns : acpiOsAllocate memory size heap = .ok chunk after) :
    chunk = memory + heap.mark ∧
      after.lastPointer = chunk ∧ after.lastPointerSize = size ∧
        after.allocated.toNat = heap.allocated.toNat + size.toNat ∧
          heap.allocated.toNat + size.toNat ≤ 179200 := by
  have sumEq := toNat_sum inside noWrap
  rcases Nat.lt_or_ge 179200 (heap.mark + size).toNat with
    tooLarge | passes
  · rw [acpiOsAllocate_enomem tooLarge] at returns
    cases returns
  · rw [acpiOsAllocate_run passes] at returns
    cases returns
    rw [sumEq] at passes
    refine ⟨rfl, rfl, rfl, ?_, passes⟩
    change ((heap.mark + size).setWidth 32).toNat = _
    rw [BitVec.toNat_setWidth, sumEq]
    omega

/-- `AcpiOsFree` gives back the last chunk and does nothing about any other. -/
theorem acpiOsFree_returns
    (returns : acpiOsFree pointer heap = .ok () after) :
    (pointer = heap.lastPointer ∧
        after = { heap with
          allocated :=
            (heap.mark - heap.lastPointerSize).setWidth 32 }) ∨
      pointer ≠ heap.lastPointer ∧ after = heap := by
  rw [acpiOsFree, bind_of_ok (get_run heap)] at returns
  by_cases last : pointer = heap.lastPointer
  · rw [if_pos last] at returns
    cases returns
    exact Or.inl ⟨last, rfl⟩
  · rw [if_neg last] at returns
    cases returns
    exact Or.inr ⟨last, rfl⟩

end Mark

/-! ## The invariant -/

/-- The blocks held lie apart in the used part of the array, and one at the
remembered pointer is the topmost. -/
structure Sound (array : Array175K) (state : State) : Prop where
  inside : state.heap.allocated.toNat ≤ 179200
  separated : Separated state.live
  notEmpty : NotEmpty state.live
  above : ∀ block ∈ state.live, array.address.toNat ≤ block.start
  below :
    Below (array.address.toNat + state.heap.allocated.toNat) state.live
  remembered :
    ∀ block ∈ state.live, block.start = state.heap.lastPointer.toNat →
      block.size = state.heap.lastPointerSize.toNat ∧
        block.stop =
          array.address.toNat + state.heap.allocated.toNat

/-- Nothing is allocated at first. -/
theorem sound_initial (array : Array175K) :
    Sound array ⟨AcpiHeap.initial, []⟩ where
  inside := Nat.zero_le _
  separated := List.Pairwise.nil
  notEmpty := by simp [NotEmpty]
  above := by simp
  below := by simp [Below]
  remembered := by simp

namespace Sound

variable {array : Array175K} {state : State}

/-- A chunk that is allocated lies above every live one. -/
theorem allocate
    (sound : Sound array state) {size chunk : BitVec 64}
    {after : AcpiHeap}
    (positive : 1 ≤ size.toNat)
    (noWrap : state.heap.allocated.toNat + size.toNat < 2 ^ 64)
    (returns :
      acpiOsAllocate array.address size state.heap = .ok chunk after) :
    Sound array ⟨after, ⟨chunk.toNat, size.toNat⟩ :: state.live⟩ := by
  have inside := sound.inside
  have room := array.below
  rcases acpiOsAllocate_returns inside noWrap returns with
    ⟨rfl, lastEq, sizeEq, markEq, fits⟩
  have chunkEq :
      (array.address + state.heap.mark).toNat =
        array.address.toNat + state.heap.allocated.toNat := by
    rw [BitVec.toNat_add, toNat_mark inside]
    omega
  refine
    { inside := by rw [markEq]; exact fits
      separated := sound.separated.cons sound.below (le_of_eq chunkEq.symm)
      notEmpty := ?_
      above := ?_
      below := ?_
      remembered := ?_ }
  · intro block member
    rcases List.mem_cons.1 member with rfl | member
    · exact positive
    · exact sound.notEmpty block member
  · intro block member
    rcases List.mem_cons.1 member with rfl | member
    · rw [chunkEq]
      exact Nat.le_add_right _ _
    · exact sound.above block member
  · intro block member
    rcases List.mem_cons.1 member with rfl | member
    · simp only [Block.stop]
      omega
    · exact (sound.below.mono (by simp only; omega)) block member
  · intro block member start
    rcases List.mem_cons.1 member with rfl | member
    · refine ⟨by rw [sizeEq], ?_⟩
      simp only [Block.stop]
      omega
    · -- a block held before ends below the new one, which is not empty
      have below := sound.below block member
      have notEmpty := sound.notEmpty block member
      rw [lastEq, chunkEq] at start
      simp only [Block.stop] at below
      omega

/-- The topmost block is the only one which moves the mark back. -/
theorem free
    (sound : Sound array state) {pointer : BitVec 64} {after : AcpiHeap}
    (held : ∃ block ∈ state.live, block.start = pointer.toNat)
    (returns : acpiOsFree pointer state.heap = .ok () after) :
    Sound array ⟨after, release pointer.toNat state.live⟩ := by
  have inside := sound.inside
  have others {block : Block}
      (member : block ∈ release pointer.toNat state.live) :
      block.start ≠ pointer.toNat :=
    start_ne_of_mem_release sound.separated sound.notEmpty member
  rcases acpiOsFree_returns returns with ⟨rfl, rfl⟩ | ⟨-, rfl⟩
  · rcases held with ⟨top, member, start⟩
    rcases sound.remembered top member start with ⟨sizeEq, isTop⟩
    have topAbove := sound.above top member
    have lowered :
        ((state.heap.mark - state.heap.lastPointerSize).setWidth 32).toNat =
          top.start - array.address.toNat := by
      simp only [Block.stop] at isTop
      rw [BitVec.toNat_setWidth, BitVec.toNat_sub_of_le, toNat_mark inside]
      · omega
      · rw [BitVec.le_def, toNat_mark inside]
        omega
    have below :=
      sound.below.release_top sound.separated sound.notEmpty member isTop
    rw [start] at below
    refine
      { inside := ?_
        separated := sound.separated.release _
        notEmpty := sound.notEmpty.release _
        above := fun block held => sound.above block (mem_of_mem_release held)
        below := below.mono ?_
        remembered := fun block held same => (others held same).elim }
    · rw [lowered]
      simp only [Block.stop] at isTop
      omega
    · rw [lowered]
      omega
  · exact
      { inside := inside
        separated := sound.separated.release _
        notEmpty := sound.notEmpty.release _
        above := fun block held => sound.above block (mem_of_mem_release held)
        below := sound.below.release _
        remembered := fun block held =>
          sound.remembered block (mem_of_mem_release held) }

end Sound

/-- Every run of allocations and releases keeps the chunks apart. -/
theorem sound_of_run
    {array : Array175K} {calls : List AllocatorCall} {state : State}
    (run : AllocatorRun array calls state) :
    Sound array state := by
  refine run.invariant (Sound array) (sound_initial array) ?_
  intro call before after sound step
  cases step with
  | allocate positive small returns =>
      have inside := sound.inside
      exact sound.allocate positive (by omega) returns
  | free held returns => exact sound.free held returns

/-- The blocks held are sound in every run. -/
theorem acpi_heap_safety
    {array : Array175K} {calls : List AllocatorCall} {state : State}
    (run : AllocatorRun array calls state) :
    Separated state.live ∧
      (∀ block ∈ state.live,
        (array.address.toNat : Int) ≤ block.start ∧
          (block.start : Int) + block.size ≤
            array.address.toNat + state.heap.allocated.toInt) ∧
        0 ≤ state.heap.allocated.toInt ∧
          state.heap.allocated.toInt ≤ 179200 := by
  have sound := sound_of_run run
  have inside := sound.inside
  have asInt :
      state.heap.allocated.toInt = state.heap.allocated.toNat := by
    rw [BitVec.toInt_eq_toNat_of_lt]
    omega
  rw [asInt]
  refine ⟨sound.separated, ?_, ?_, ?_⟩
  · intro block member
    have above := sound.above block member
    have below := sound.below block member
    simp only [Block.stop] at below
    omega
  · omega
  · omega

/-- The array of an image which places it at 4 MiB. -/
def sampleArray : Array175K where
  address := 0x400000
  below := by decide

/-- The later of two allocations is given back, and its place is taken by a
third. -/
theorem acpi_heap_safety_pair :
    ∃ state,
      AllocatorRun sampleArray
          [.allocate 64, .allocate 32, .free 0x400040, .allocate 16] state ∧
        Separated state.live ∧
          state.live = [⟨0x400040, 16⟩, ⟨0x400000, 64⟩] := by
  have run :
      AllocatorRun sampleArray
        [.allocate 64, .allocate 32, .free 0x400040, .allocate 16] _ :=
    .step
      (.step
        (.step (.step .start (.allocate (by decide) (by decide) rfl))
          (.allocate (by decide) (by decide) rfl))
        (.free ⟨⟨0x400040, 32⟩, by decide, by decide⟩ rfl))
      (.allocate (by decide) (by decide) rfl)
  exact ⟨_, run, (acpi_heap_safety run).1, by decide⟩

/-! ## The comparison with the capacity -/

/-- The request is decided as if the sum were unbounded. -/
structure DecidesExactly
    (array : Array175K) (heap : AcpiHeap) (size : BitVec 64) : Prop where
  passes :
    heap.allocated.toInt + size.toNat ≤ 179200 →
      ∃ chunk after,
        acpiOsAllocate array.address size heap = .ok chunk after ∧
          after.allocated.toInt = heap.allocated.toInt + size.toNat
  fails :
    179200 < heap.allocated.toInt + size.toNat →
      acpiOsAllocate array.address size heap = .error .enomem heap

/-- A call which returned, with any size for which the sum does not wrap. -/
inductive UnwrappedStep (array : Array175K) :
    State → AllocatorCall → State → Prop where
  | allocate
      {before : State} {size chunk : BitVec 64} {after : AcpiHeap}
      (positive : 1 ≤ size.toNat)
      (unwrapped :
        before.heap.allocated.toInt + size.toNat < 2 ^ 64)
      (returns :
        acpiOsAllocate array.address size before.heap = .ok chunk after) :
      UnwrappedStep array before (.allocate size)
        ⟨after, ⟨chunk.toNat, size.toNat⟩ :: before.live⟩
  | free
      {before : State} {pointer : BitVec 64} {after : AcpiHeap}
      (held : ∃ block ∈ before.live, block.start = pointer.toNat)
      (returns : acpiOsFree pointer before.heap = .ok () after) :
      UnwrappedStep array before (.free pointer)
        ⟨after, release pointer.toNat before.live⟩

/-- Inside the array the signed counter is the unsigned one. -/
theorem toInt_allocated
    {heap : AcpiHeap} (inside : heap.allocated.toNat ≤ 179200) :
    heap.allocated.toInt = heap.allocated.toNat := by
  rw [BitVec.toInt_eq_toNat_of_lt]
  omega

/-- The sum in the check is exact until it wraps. -/
theorem decidesExactly_iff
    (array : Array175K) {heap : AcpiHeap}
    (inside : heap.allocated.toNat ≤ 179200) (size : BitVec 64) :
    DecidesExactly array heap size ↔
      heap.allocated.toInt + size.toNat < 2 ^ 64 := by
  rw [toInt_allocated inside]
  constructor
  · intro exactly
    by_contra wraps
    have sumEq :
        (heap.mark + size).toNat =
          heap.allocated.toNat + size.toNat - 2 ^ 64 := by
      rw [BitVec.toNat_add, toNat_mark inside]
      omega
    have failed := exactly.fails
    rw [toInt_allocated inside,
      acpiOsAllocate_run (by omega : (heap.mark + size).toNat ≤ 179200)]
      at failed
    cases failed (by omega)
  · intro unwrapped
    have noWrap : heap.allocated.toNat + size.toNat < 2 ^ 64 := by omega
    have sumEq := toNat_sum inside noWrap
    constructor
    · intro fits
      rw [toInt_allocated inside] at fits ⊢
      refine ⟨_, _, acpiOsAllocate_run (by omega), ?_⟩
      have sumLow :
          ((heap.mark + size).setWidth 32).toNat =
            heap.allocated.toNat + size.toNat := by
        rw [BitVec.toNat_setWidth, sumEq]
        omega
      change ((heap.mark + size).setWidth 32).toInt = _
      rw [BitVec.toInt_eq_toNat_of_lt (by omega), sumLow]
      exact Nat.cast_add _ _
    · intro tooLarge
      rw [toInt_allocated inside] at tooLarge
      exact acpiOsAllocate_enomem (by omega)

/-- Runs in which no sum wraps keep the chunks apart as well. -/
theorem sound_of_unwrapped
    {array : Array175K} {calls : List AllocatorCall} {state : State}
    (run : Run (UnwrappedStep array) ⟨AcpiHeap.initial, []⟩ calls state) :
    Sound array state := by
  refine run.invariant (Sound array) (sound_initial array) ?_
  intro call before after sound step
  cases step with
  | allocate positive unwrapped returns =>
      rw [toInt_allocated sound.inside] at unwrapped
      exact sound.allocate positive (by omega) returns
  | free held returns => exact sound.free held returns

/-- After requests whose sums did not wrap, a request is decided exactly if
its sum does not wrap either. -/
theorem acpi_capacity_exact_iff
    {array : Array175K} {calls : List AllocatorCall} {state : State}
    (run : Run (UnwrappedStep array) ⟨AcpiHeap.initial, []⟩ calls state)
    (size : BitVec 64) :
    DecidesExactly array state.heap size ↔
      state.heap.allocated.toInt + size.toNat < 2 ^ 64 :=
  decidesExactly_iff array (sound_of_unwrapped run).inside size

/-- The heap after a first request for 100 bytes. -/
theorem hundred_bytes_run :
    ∃ state,
      Run (UnwrappedStep sampleArray) ⟨AcpiHeap.initial, []⟩
          [.allocate 100] state ∧
        state.heap.allocated = 100 :=
  ⟨_, .step .start (.allocate (by decide) (by decide) rfl), rfl⟩

/-- After a first allocation of 100 bytes. -/
theorem acpi_capacity_exact_iff_hundred :
    ∃ state,
      Run (UnwrappedStep sampleArray) ⟨AcpiHeap.initial, []⟩
          [.allocate 100] state ∧
        (DecidesExactly sampleArray state.heap 64 ↔
          state.heap.allocated.toInt + 64 < 2 ^ 64) := by
  rcases hundred_bytes_run with ⟨state, run, -⟩
  exact ⟨state, run, acpi_capacity_exact_iff run 64⟩

/-- A request for 100 bytes less than the address space holds is granted. -/
theorem huge_request_is_granted :
    ∃ state,
      Run (UnwrappedStep sampleArray) ⟨AcpiHeap.initial, []⟩
          [.allocate 100] state ∧
        ¬ DecidesExactly sampleArray state.heap 0xFFFFFFFFFFFFFF9C := by
  rcases hundred_bytes_run with ⟨state, run, allocated⟩
  have inside := (sound_of_unwrapped run).inside
  refine ⟨state, run, ?_⟩
  rw [decidesExactly_iff sampleArray inside, allocated]
  decide

end NopOS.Acpi.Allocator
