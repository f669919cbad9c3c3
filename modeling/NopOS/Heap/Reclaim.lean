import NopOS.Heap.HeapRuns

/-!
# What the pool takes back

`pool_free` takes the dead entries off the top each time.  So in every run the
entry on top is a live block, the used part ends where that block does, and
the blocks can be given back in any order until nothing is left of them.
Neither needs the released pointers to be those of live blocks.
-/

namespace NopOS.Heap.Reclaim

open NopOS.Lib.Blocks
open NopOS.Lib.BlockStack
open NopOS.Lib.StatefulProgram
open NopOS.Lib.LabelledRun
open NopOS.Heap.MallocPool
open NopOS.Heap.PoolRefinement
open NopOS.Heap.HeapRuns

/-! ## The live blocks of the tables -/

/-- The live blocks among the first entries, the latest one first. -/
def liveBelow (pool : Pool) : Nat → List Block
  | 0 => []
  | i + 1 =>
      if pool.alloc i = -1 then liveBelow pool i
      else
        ⟨pool.p.toNat + (pool.alloc i).toNat, (pool.allocSize i).toNat⟩ ::
          liveBelow pool i

/-- The live entries of the tables as blocks. -/
def liveBlocks (pool : Pool) : List Block :=
  liveBelow pool pool.nalloc.toNat

theorem liveBelow_of_holds
    {pool : Pool} {entries : List Entry}
    (holds : Holds pool.alloc pool.allocSize entries) :
    liveBelow pool entries.length =
      (blocks entries).map (Block.shift pool.p.toNat) := by
  induction entries with
  | nil => rfl
  | cons entry entries induction =>
      rcases holds with ⟨atAlloc, atSize, under⟩
      rw [List.length_cons, liveBelow, induction under, atAlloc, atSize,
        blocks]
      cases alive : entry.live with
      | true =>
          rw [if_pos rfl, if_pos rfl, if_neg (height_ne_dead entries)]
          rfl
      | false =>
          rw [if_neg Bool.false_ne_true, if_neg Bool.false_ne_true,
            if_pos rfl]

/-- The live blocks of the tables are those of the entries. -/
theorem liveBlocks_eq
    {pool : Pool} {entries : List Entry}
    (represents : Represents pool entries) :
    liveBlocks pool =
      (blocks entries).map (Block.shift pool.p.toNat) := by
  have nallocEq := represents.nalloc_eq
  have length : pool.nalloc.toNat = entries.length := by omega
  rw [liveBlocks, length, liveBelow_of_holds represents.table]

/-- The client's account is that of the tables. -/
theorem liveBlocks_of_run
    {buffer : Buffer} {calls : List HeapCall} {heap : HeapState}
    (run : HeapRun buffer calls heap) :
    liveBlocks heap.pool = heap.live := by
  rcases sound_of_run run with ⟨entries, sound, -⟩
  rw [liveBlocks_eq sound.represents, sound.live_eq, sound.p_eq]

/-! ## The pool after a release -/

/-- The entry on top is live, and the used part ends where its block does,
the highest of the live ones. -/
structure EndsAtLiveBlock (pool : Pool) : Prop where
  entry : 1 ≤ pool.nalloc
  notDead : pool.alloc (pool.nalloc - 1) ≠ -1
  highest :
    ∃ block ∈ liveBlocks pool,
      (block.start : Int) =
          pool.p.toNat + pool.alloc (pool.nalloc - 1) ∧
        (block.stop : Int) = pool.p.toNat + pool.n ∧
        Below block.stop (liveBlocks pool)

/-- The initial pool, up to the tables, in which no entry is in use, and the
bytes of `buf`. -/
structure Unused (buffer : Buffer) (pool : Pool) : Prop where
  p_eq : pool.p = (Pool.initial buffer.address).p
  n_eq : pool.n = (Pool.initial buffer.address).n
  total_eq : pool.total = (Pool.initial buffer.address).total
  nalloc_eq : pool.nalloc = (Pool.initial buffer.address).nalloc

/-- A trimmed pool is empty or ends with a live block. -/
theorem unused_or_endsAtLiveBlock
    {buffer : Buffer} {pool : Pool} {entries : List Entry}
    (represents : Represents pool entries)
    (placed : pool.p = buffer.address) (trimmed : Trimmed entries) :
    Unused buffer pool ∨ EndsAtLiveBlock pool := by
  have nEq := represents.n_eq
  cases entries with
  | nil =>
      exact
        Or.inl
          ⟨placed, nEq, represents.total_eq, represents.nalloc_eq⟩
  | cons entry entries =>
      rcases represents.top with ⟨top, inside, atAlloc⟩
      rw [trimmed.live_top, if_pos rfl] at atAlloc
      have lower := inside.1
      refine
        Or.inr
          { entry := by omega
            notDead := ?_
            highest := ?_ }
      · rw [top, atAlloc]
        exact height_ne_dead entries
      · rw [liveBlocks_eq represents, top, atAlloc, nEq]
        refine
          ⟨Block.shift pool.p.toNat ⟨height entries, entry.size⟩,
            List.mem_map_of_mem trimmed.mem_blocks, ?_, ?_, ?_⟩
        · rw [Block.shift]
          exact Nat.cast_add _ _
        · rw [height, Block.stop, Block.shift]
          push_cast
          ring
        · intro other member
          rcases List.mem_map.1 member with ⟨block, held, rfl⟩
          have below := blocks_below (entry :: entries) block held
          rw [height] at below
          simp only [Block.stop, Block.shift] at below ⊢
          omega

/-! ## Calls within the capacity -/

/-- A call within the capacity, with whatever pointer it gives back. -/
structure PoolStep (before : Pool) (call : HeapCall) (after : Pool) :
    Prop where
  fits :
    ∀ size, call.requesting = some size →
      Fits (call.poolReleased before) size
  returns : ∃ rv, call.perform before = .ok rv after

/-- Every call keeps the tables and the entries in step. -/
theorem PoolStep.represents
    {buffer : Buffer} {before after : Pool} {entries : List Entry}
    {call : HeapCall} (step : PoolStep before call after)
    (represents : Represents before entries)
    (placed : before.p = buffer.address) :
    Represents after (call.entriesAfter before entries) ∧
      after.p = buffer.address := by
  rcases perform_represents represents placed step.fits with
    ⟨rv, pool, returns, afterRepresents, afterPlaced, -⟩
  rcases step.returns with ⟨value, performed⟩
  rw [returns] at performed
  cases performed
  exact ⟨afterRepresents, afterPlaced⟩

/-- The tables are those of a trimmed stack after every run. -/
theorem represents_of_run
    {buffer : Buffer} {calls : List HeapCall} {pool : Pool}
    (run : Run PoolStep (Pool.initial buffer.address) calls pool) :
    ∃ entries,
      Represents pool entries ∧ pool.p = buffer.address ∧
        Trimmed entries := by
  refine
    run.invariant
      (fun pool =>
        ∃ entries,
          Represents pool entries ∧ pool.p = buffer.address ∧
            Trimmed entries)
      ⟨[], represents_initial buffer.address, rfl, trimmed_nil⟩ ?_
  rintro call before after ⟨entries, represents, placed, -⟩ step
  rcases step.represents represents placed with
    ⟨afterRepresents, afterPlaced⟩
  exact
    ⟨_, afterRepresents, afterPlaced, call.trimmed_entriesAfter _ _⟩

/-- The allowed calls of a client are within the capacity. -/
theorem HeapStep.poolStep
    {before after : HeapState} {call : HeapCall}
    (step : HeapStep before call after) :
    PoolStep before.pool call after.pool where
  fits := step.allowed.fits
  returns := by
    rcases step.returns with ⟨rv, performed, -⟩
    exact ⟨rv, performed⟩

/-! ## Giving all blocks back -/

/-- The call which gives a block back. -/
def freeBlock (block : Block) : HeapCall :=
  .free (BitVec.ofNat 64 block.start)

section Releases

variable {buffer : Buffer} {pool : Pool} {entries : List Entry}

/-- A request that fits has a step. -/
theorem poolStep_of_fits
    (represents : Represents pool entries)
    (placed : pool.p = buffer.address) {call : HeapCall}
    (fits :
      ∀ size, call.requesting = some size →
        Fits (call.poolReleased pool) size) :
    ∃ after, PoolStep pool call after := by
  rcases perform_represents represents placed fits with
    ⟨rv, after, returns, -⟩
  exact ⟨after, fits, rv, returns⟩

theorem poolStep_freeBlock
    {block : Block} {after : Pool}
    (frees :
      poolFree (BitVec.ofNat 64 block.start) pool = .ok () after) :
    PoolStep pool (freeBlock block) after where
  fits := by
    intro size requested
    cases requested
  returns := by
    refine ⟨0, ?_⟩
    rw [freeBlock, HeapCall.perform, MallocPool.free, bind_of_ok frees]
    rfl

/-- Live blocks lie in the buffer. -/
theorem within_buffer
    (represents : Represents pool entries)
    (placed : pool.p = buffer.address) :
    ∀ block ∈ liveBlocks pool,
      buffer.address.toNat ≤ block.start ∧
        block.stop ≤ buffer.address.toNat + 100000 := by
  intro block member
  have bytesFit := represents.bytesFit
  rw [liveBlocks_eq represents, placed, List.mem_map] at member
  rcases member with ⟨block, held, rfl⟩
  have below := blocks_below entries block held
  simp only [Block.stop, Block.shift, bufSize] at *
  omega

/-- The pointer to a block of the buffer and the offset it stands for. -/
theorem freeOffset_ofNat
    (placed : pool.p = buffer.address) {start : Nat}
    (upper : start ≤ buffer.address.toNat + 100000) :
    (BitVec.ofNat 64 start).toNat = start ∧
      freeOffset pool (BitVec.ofNat 64 start) =
        start - buffer.address.toNat := by
  have below := buffer.below
  have toNat : (BitVec.ofNat 64 start).toNat = start := by
    apply Nat.mod_eq_of_lt
    omega
  refine ⟨toNat, ?_⟩
  rw [freeOffset, placed, toNat, int_of_small (by omega) (by omega)]

/-- Releasing a block takes the blocks with its start out. -/
theorem liveBlocks_poolFree
    (represents : Represents pool entries)
    (placed : pool.p = buffer.address) {start : Nat}
    (upper : start ≤ buffer.address.toNat + 100000) :
    ∃ after,
      poolFree (BitVec.ofNat 64 start) pool = .ok () after ∧
        Represents after
          (giveBack ((start : Int) - buffer.address.toNat) entries) ∧
        after.p = buffer.address ∧
        liveBlocks after =
          (liveBlocks pool).filter
            fun block => decide (block.start ≠ start) := by
  rcases poolFree_spec represents (BitVec.ofNat 64 start) with
    ⟨after, returns, released, sameP, -⟩
  rw [(freeOffset_ofNat placed upper).2] at released
  refine ⟨after, returns, released, sameP.trans placed, ?_⟩
  rw [liveBlocks_eq released, liveBlocks_eq represents, sameP, placed,
    shift_giveBack]

/-- Whatever order the live blocks are given back in, none is left. -/
theorem frees_all
    (represents : Represents pool entries)
    (placed : pool.p = buffer.address) (trimmed : Trimmed entries)
    {order : List Block}
    (inBuffer :
      ∀ block ∈ order, block.stop ≤ buffer.address.toNat + 100000)
    (all : ∀ block ∈ liveBlocks pool, block ∈ order) :
    ∃ after,
      Run PoolStep pool (order.map freeBlock) after ∧
        Represents after [] ∧ after.p = buffer.address := by
  induction order generalizing pool entries with
  | nil =>
      have none : blocks entries = [] := by
        have live := List.eq_nil_iff_forall_not_mem.2 fun block member =>
          List.not_mem_nil (all block member)
        rw [liveBlocks_eq represents] at live
        exact List.map_eq_nil_iff.1 live
      have empty := trimmed.eq_nil none
      subst empty
      exact ⟨pool, .start, represents, placed⟩
  | cons block order induction =>
      have upper : block.start ≤ buffer.address.toNat + 100000 :=
        (Nat.le_add_right _ _).trans (inBuffer block List.mem_cons_self)
      rcases liveBlocks_poolFree represents placed upper with
        ⟨middle, frees, middleRepresents, middlePlaced, live⟩
      have left : ∀ other ∈ liveBlocks middle, other ∈ order := by
        intro other member
        rw [live, List.mem_filter, decide_eq_true_iff] at member
        rcases List.mem_cons.1 (all other member.1) with rfl | later
        · exact absurd rfl member.2
        · exact later
      rcases
          induction middleRepresents middlePlaced (trimmed_giveBack _ _)
            (fun other member =>
              inBuffer other (List.mem_cons_of_mem _ member))
            left with
        ⟨after, run, afterRepresents, afterPlaced⟩
      exact
        ⟨after, .cons (poolStep_freeBlock frees) run, afterRepresents,
          afterPlaced⟩

end Releases

/-! ## Pools of the same stack -/

section SameStack

variable {buffer : Buffer} {pool other : Pool} {entries : List Entry}

/-- A pool of the same stack goes through the same calls. -/
theorem run_of_same
    (represents : Represents pool entries)
    (placed : pool.p = buffer.address)
    (otherRepresents : Represents other entries)
    (otherPlaced : other.p = buffer.address)
    {calls : List HeapCall} {after : Pool}
    (run : Run PoolStep pool calls after) :
    ∃ otherAfter afterEntries,
      Run PoolStep other calls otherAfter ∧
        (Represents after afterEntries ∧ after.p = buffer.address) ∧
        Represents otherAfter afterEntries ∧
        otherAfter.p = buffer.address := by
  induction run with
  | start =>
      exact
        ⟨other, entries, .start, ⟨represents, placed⟩, otherRepresents,
          otherPlaced⟩
  | @step calls call before after earlier last induction =>
      rcases induction with
        ⟨middle, middleEntries, middleRun, ⟨beforeRepresents, beforePlaced⟩,
          middleRepresents, middlePlaced⟩
      have released :=
        entriesReleased_congr (beforePlaced.trans middlePlaced.symm) call
          middleEntries
      have fits :
          ∀ size, call.requesting = some size →
            Fits (call.poolReleased middle) size := by
        intro size requested
        have room := last.fits size requested
        rw [fits_iff (represents_released beforeRepresents call).1,
          released] at room
        rw [fits_iff (represents_released middleRepresents call).1]
        exact room
      rcases perform_represents middleRepresents middlePlaced fits with
        ⟨rv, otherAfter, returns, afterRepresents, afterPlaced, -⟩
      refine
        ⟨otherAfter, call.entriesAfter middle middleEntries,
          .step middleRun ⟨fits, rv, returns⟩, ?_, afterRepresents,
          afterPlaced⟩
      have stack := last.represents beforeRepresents beforePlaced
      rw [HeapCall.entriesAfter, released] at stack
      exact stack

end SameStack

/-! ## Runs -/

/-- A release stops with nothing dead on top, and after all live blocks were
given back, in any order, the pool is as it was at the beginning. -/
theorem pool_reclaims_all
    {buffer : Buffer} {calls : List HeapCall} {pool : Pool}
    (run : Run PoolStep (Pool.initial buffer.address) calls pool) :
    (∀ ptr, ∃ after,
        poolFree ptr pool = .ok () after ∧ 0 ≤ after.nalloc ∧
          (Unused buffer after ∨ EndsAtLiveBlock after)) ∧
      ∀ order : List Block, order.Perm (liveBlocks pool) →
        ∃ after,
          Run PoolStep pool (order.map freeBlock) after ∧
            Unused buffer after ∧
            ∀ later last, Run PoolStep after later last →
              ∃ again,
                Run PoolStep (Pool.initial buffer.address) later again ∧
                  again.n = last.n ∧ again.nalloc = last.nalloc ∧
                  liveBlocks again = liveBlocks last := by
  rcases represents_of_run run with
    ⟨entries, represents, placed, trimmed⟩
  constructor
  · intro ptr
    rcases poolFree_spec represents ptr with
      ⟨after, returns, released, sameP, -⟩
    refine
      ⟨after, returns, ?_,
        unused_or_endsAtLiveBlock released (sameP.trans placed)
          (trimmed_giveBack _ _)⟩
    rw [released.nalloc_eq]
    exact Int.natCast_nonneg _
  · intro order perm
    rcases
        frees_all represents placed trimmed
          (fun block member =>
            (within_buffer represents placed block
              (perm.mem_iff.1 member)).2)
          (fun block member => perm.mem_iff.2 member) with
      ⟨after, frees, empty, afterPlaced⟩
    have unused : Unused buffer after :=
      ⟨afterPlaced, empty.n_eq, empty.total_eq, empty.nalloc_eq⟩
    refine ⟨after, frees, unused, ?_⟩
    intro later last laterRun
    rcases
        run_of_same empty afterPlaced (represents_initial buffer.address) rfl
          laterRun with
      ⟨again, stack, againRun, ⟨lastRepresents, lastPlaced⟩,
        againRepresents, againPlaced⟩
    refine ⟨again, againRun, ?_, ?_, ?_⟩
    · rw [againRepresents.n_eq, lastRepresents.n_eq]
    · rw [againRepresents.nalloc_eq, lastRepresents.nalloc_eq]
    · rw [liveBlocks_eq againRepresents, liveBlocks_eq lastRepresents,
        againPlaced, lastPlaced]

/-- The heap of the history array and a line above it. -/
theorem pool_reclaims_all_line :
    ∃ pool,
      Run PoolStep (Pool.initial sampleBuffer.address)
          [.malloc 800, .malloc 10] pool ∧
        ∀ order : List Block, order.Perm (liveBlocks pool) →
          ∃ after,
            Run PoolStep pool (order.map freeBlock) after ∧
              Unused sampleBuffer after := by
  have initially := represents_initial sampleBuffer.address
  have roomFirst :
      ∀ size, (HeapCall.malloc 800).requesting = some size →
        Fits (Pool.initial sampleBuffer.address) size := by
    rintro size requested
    cases requested
    rw [fits_iff initially]
    constructor <;> decide
  rcases poolStep_of_fits initially rfl roomFirst with ⟨middle, first⟩
  rcases first.represents initially rfl with ⟨represents, placed⟩
  have roomSecond :
      ∀ size, (HeapCall.malloc 10).requesting = some size →
        Fits middle size := by
    rintro size requested
    cases requested
    rw [fits_iff represents]
    constructor <;> decide
  rcases poolStep_of_fits represents placed roomSecond with
    ⟨pool, second⟩
  have run :
      Run PoolStep (Pool.initial sampleBuffer.address)
        [.malloc 800, .malloc 10] pool :=
    .cons first (.step .start second)
  refine ⟨pool, run, ?_⟩
  intro order perm
  rcases (pool_reclaims_all run).2 order perm with
    ⟨after, frees, unused, -⟩
  exact ⟨after, frees, unused⟩

end NopOS.Heap.Reclaim
