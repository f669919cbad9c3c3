import NopOS.Heap.Reclaim

/-!
# Releases and blocks of size zero

`pool_free` knows a block by its offset, and its first loop goes on after the
entry found.  A block of size zero starts where the next block does, so a
release of one releases the other.  As long as the client gives back no
pointer which it holds twice, its account is that of the tables, and a release
takes out nothing but its block exactly if that holds for the release too.
-/

namespace NopOS.Heap.EmptyBlocks

open NopOS.Lib.Blocks
open NopOS.Lib.BlockStack
open NopOS.Lib.LabelledRun
open NopOS.Heap.MallocPool
open NopOS.Heap.PoolRefinement
open NopOS.Heap.HeapRuns
open NopOS.Heap.Reclaim

/-- No other block held starts where the block does. -/
def Unshared (live : List Block) (block : Block) : Prop :=
  ∀ other ∈ live.erase block, other.start ≠ block.start

/-- A pointer which is null or that of one block held. -/
def NamesOne (live : List Block) (ptr : BitVec 64) : Prop :=
  ptr = 0 ∨ ∃ block ∈ live, block.start = ptr.toNat ∧ Unshared live block

/-- A call within the capacity, with sizes of any kind. -/
structure UnsharedStep
    (before : HeapState) (call : HeapCall) (after : HeapState) : Prop where
  names : ∀ ptr, call.releasing = some ptr → NamesOne before.live ptr
  fits :
    ∀ size, call.requesting = some size →
      Fits (call.poolReleased before.pool) size
  returns :
    ∃ rv,
      call.perform before.pool = .ok rv after.pool ∧
        after.live = call.liveAfter rv before.live

/-- The blocks held are live in the tables and do not overlap. -/
def HeldSafely (heap : HeapState) : Prop :=
  heap.live.Subperm (liveBlocks heap.pool) ∧ Separated heap.live

/-- After `free` the other blocks are live, and stay what they are whatever
is called later. -/
def ReleasesOnly (heap : HeapState) (block : Block) : Prop :=
  ∃ after,
    MallocPool.free (BitVec.ofNat 64 block.start) heap.pool =
        .ok () after ∧
      ∀ calls later,
        Run UnsharedStep ⟨after, heap.live.erase block⟩ calls later →
          HeldSafely later

/-! ## The account of the client -/

/-- The client holds the live blocks of the pool, whose stack has no dead entry
on top. -/
structure Account
    (buffer : Buffer) (heap : HeapState) (entries : List Entry) : Prop where
  represents : Represents heap.pool entries
  placed : heap.pool.p = buffer.address
  live_perm : heap.live.Perm (liveBlocks heap.pool)
  trimmed : Trimmed entries

/-- Nothing is held at first. -/
theorem account_initial (buffer : Buffer) :
    Account buffer (HeapState.initial buffer) [] where
  represents := represents_initial buffer.address
  placed := rfl
  live_perm := List.Perm.refl _
  trimmed := trimmed_nil

namespace Account

variable {buffer : Buffer} {heap : HeapState} {entries : List Entry}

/-- The blocks that are held do not overlap, since empty ones share no byte. -/
theorem heldSafely (account : Account buffer heap entries) :
    HeldSafely heap := by
  refine ⟨account.live_perm.subperm, ?_⟩
  refine (account.live_perm.pairwise_iff Block.Apart.symm).2 ?_
  rw [liveBlocks_eq account.represents]
  exact (blocks_separated entries).shift _

theorem within_buffer (account : Account buffer heap entries) :
    ∀ block ∈ heap.live,
      buffer.address.toNat ≤ block.start ∧
        block.start ≤ buffer.address.toNat + 100000 := by
  intro block member
  have within :=
    Reclaim.within_buffer account.represents account.placed block
      (account.live_perm.mem_iff.1 member)
  exact ⟨within.1, (Nat.le_add_right _ _).trans within.2⟩

/-- The client takes the blocks with the start given back out. -/
theorem release_perm
    (account : Account buffer heap entries) {ptr : BitVec 64}
    (names : NamesOne heap.live ptr) :
    ptr.toNat ≤ buffer.address.toNat + 100000 ∧
      (release ptr.toNat heap.live).Perm
        (heap.live.filter fun block => decide (block.start ≠ ptr.toNat)) := by
  rcases names with rfl | ⟨block, member, start, unshared⟩
  · have none :
        ∀ block ∈ heap.live, block.start ≠ (0 : BitVec 64).toNat := by
      intro block member same
      have lower := (account.within_buffer block member).1
      have notNull := buffer.notNull
      rw [same] at lower
      exact absurd lower (Nat.not_le.2 notNull)
    refine ⟨Nat.zero_le _, ?_⟩
    rw [release, List.eraseP_of_forall_not (by simpa using none),
      List.filter_eq_self.2 (by simpa using none)]
  · rw [← start, release_eq_erase member unshared]
    exact
      ⟨(account.within_buffer block member).2,
        (filter_perm_erase member unshared).symm⟩

/-- The blocks a call releases are the entries it releases. -/
theorem released_perm
    (account : Account buffer heap entries) {call : HeapCall}
    (names : ∀ ptr, call.releasing = some ptr → NamesOne heap.live ptr) :
    (call.liveReleased heap.live).Perm
      ((blocks (call.entriesReleased heap.pool entries)).map
        (Block.shift buffer.address.toNat)) := by
  have live := account.live_perm
  rw [liveBlocks_eq account.represents, account.placed] at live
  rw [HeapCall.liveReleased, HeapCall.entriesReleased]
  cases released : call.releasing with
  | none => exact live
  | some ptr =>
      rcases account.release_perm (names ptr released) with
        ⟨upper, perm⟩
      have offsetEq := (freeOffset_ofNat account.placed upper).2
      rw [BitVec.ofNat_toNat, BitVec.setWidth_eq] at offsetEq
      simp only
      rw [offsetEq, shift_giveBack]
      exact perm.trans (live.filter _)

end Account

/-- A call that names one block only keeps the account. -/
theorem UnsharedStep.account
    {buffer : Buffer} {before after : HeapState} {call : HeapCall}
    {entries : List Entry} (step : UnsharedStep before call after)
    (account : Account buffer before entries) :
    Account buffer after (call.entriesAfter before.pool entries) := by
  rcases
      perform_represents account.represents account.placed step.fits with
    ⟨rv, pool, returns, represents, placed, rvEq⟩
  rcases step.returns with ⟨value, performed, live⟩
  rw [returns] at performed
  simp only [EStateM.Result.ok.injEq] at performed
  rcases performed with ⟨rfl, samePool⟩
  subst samePool
  refine
    { represents := represents
      placed := placed
      live_perm := ?_
      trimmed := call.trimmed_entriesAfter _ _ }
  have kept := account.released_perm step.names
  rw [live, HeapCall.liveAfter_eq, liveBlocks_eq represents, placed,
    HeapCall.entriesAfter]
  cases requested : call.requesting with
  | none => exact kept
  | some size =>
      simp only
      rw [rvEq size requested, blocks_push, List.map_cons]
      exact kept.cons _

/-- The client can make every call which keeps to the rules. -/
theorem Account.step
    {buffer : Buffer} {heap : HeapState} {call : HeapCall}
    {entries : List Entry} (account : Account buffer heap entries)
    (names : ∀ ptr, call.releasing = some ptr → NamesOne heap.live ptr)
    (fits :
      ∀ size, call.requesting = some size →
        Fits (call.poolReleased heap.pool) size) :
    ∃ rv after,
      UnsharedStep heap call ⟨after, call.liveAfter rv heap.live⟩ ∧
        ∀ size, call.requesting = some size →
          rv.toNat =
            buffer.address.toNat +
              height (call.entriesReleased heap.pool entries) := by
  rcases perform_represents account.represents account.placed fits with
    ⟨rv, after, returns, -, -, rvEq⟩
  exact ⟨rv, after, ⟨names, fits, rv, returns, rfl⟩, rvEq⟩

/-- A run keeps the account from wherever it starts. -/
theorem account_of_run
    {buffer : Buffer} {start heap : HeapState} {entries : List Entry}
    (account : Account buffer start entries) {calls : List HeapCall}
    (run : Run UnsharedStep start calls heap) :
    ∃ afterEntries, Account buffer heap afterEntries := by
  refine
    run.invariant
      (fun heap => ∃ afterEntries, Account buffer heap afterEntries)
      ⟨entries, account⟩ ?_
  rintro call before after ⟨beforeEntries, beforeAccount⟩ step
  exact ⟨_, step.account beforeAccount⟩

/-! ## One release -/

namespace Account

variable {buffer : Buffer} {heap : HeapState} {entries : List Entry}

theorem free_null (account : Account buffer heap entries) :
    MallocPool.free 0 heap.pool = .ok () heap.pool := by
  have notNull := buffer.notNull
  have below := buffer.below
  apply poolFree_outside account.represents account.trimmed
  have zero : (0 : BitVec 64).toNat = 0 := rfl
  rw [freeOffset, account.placed, zero,
    int_of_small (by omega) (by omega)]
  omega

/-- A block is released alone exactly if no other starts where it does. -/
theorem releasesOnly_iff
    (account : Account buffer heap entries) {block : Block}
    (member : block ∈ heap.live) :
    ReleasesOnly heap block ↔ Unshared heap.live block := by
  rcases
      liveBlocks_poolFree account.represents account.placed
        (account.within_buffer block member).2 with
    ⟨pool, frees, represents, placed, live⟩
  constructor
  · rintro ⟨after, returns, safely⟩ other held
    rw [MallocPool.free, frees] at returns
    cases returns
    have stays := (safely [] _ .start).1.subset held
    rw [live, List.mem_filter, decide_eq_true_iff] at stays
    exact stays.2
  · intro unshared
    have left : Account buffer ⟨pool, heap.live.erase block⟩ _ :=
      { represents := represents
        placed := placed
        live_perm := by
          rw [live]
          exact
            (filter_perm_erase member unshared).symm.trans
              (account.live_perm.filter _)
        trimmed := trimmed_giveBack _ _ }
    refine ⟨pool, frees, ?_⟩
    intro calls later run
    rcases account_of_run left run with ⟨_, laterAccount⟩
    exact laterAccount.heldSafely

end Account

/-! ## Runs -/

/-- After a run in which no pointer held twice was given back, `free` releases
only its block exactly if its pointer is not held twice either. -/
theorem free_releases_only_iff
    {buffer : Buffer} {calls : List HeapCall} {heap : HeapState}
    (run : Run UnsharedStep (HeapState.initial buffer) calls heap) :
    MallocPool.free 0 heap.pool = .ok () heap.pool ∧
      ∀ block ∈ heap.live,
        ReleasesOnly heap block ↔
          ∀ other ∈ heap.live.erase block, other.start ≠ block.start := by
  rcases account_of_run (account_initial buffer) run with
    ⟨entries, account⟩
  exact ⟨account.free_null, fun block => account.releasesOnly_iff⟩

/-- Two requests at the start, for nothing and for ten bytes. -/
theorem empty_block_run :
    ∃ heap,
      Run UnsharedStep (HeapState.initial sampleBuffer)
          [.malloc 0, .malloc 10] heap ∧
        heap.live = [⟨0x300000, 10⟩, ⟨0x300000, 0⟩] := by
  have initially := account_initial sampleBuffer
  have nothingReleased :
      ∀ (live : List Block) (sz ptr : BitVec 64),
        (HeapCall.malloc sz).releasing = some ptr → NamesOne live ptr := by
    rintro live sz ptr released
    cases released
  have roomFirst :
      ∀ size, (HeapCall.malloc 0).requesting = some size →
        Fits (HeapState.initial sampleBuffer).pool size := by
    rintro size requested
    cases requested
    rw [fits_iff initially.represents]
    constructor <;> decide
  rcases initially.step (nothingReleased _ _) roomFirst with
    ⟨rvFirst, pool, first, rvFirstEq⟩
  have account := first.account initially
  have roomSecond :
      ∀ size, (HeapCall.malloc 10).requesting = some size →
        Fits pool size := by
    rintro size requested
    cases requested
    rw [fits_iff account.represents]
    constructor <;> decide
  rcases account.step (nothingReleased _ _) roomSecond with
    ⟨rvSecond, after, second, rvSecondEq⟩
  refine ⟨_, .cons first (.step .start second), ?_⟩
  have firstStart : rvFirst.toNat = 0x300000 := rvFirstEq 0 rfl
  have secondStart : rvSecond.toNat = 0x300000 := rvSecondEq 10 rfl
  show
    [⟨rvSecond.toNat, 10⟩, ⟨rvFirst.toNat, 0⟩] =
      [(⟨0x300000, 10⟩ : Block), ⟨0x300000, 0⟩]
  rw [firstStart, secondStart]

/-- An empty block lies where the next one starts. -/
theorem free_releases_only_iff_empty_block :
    ∃ heap,
      Run UnsharedStep (HeapState.initial sampleBuffer)
          [.malloc 0, .malloc 10] heap ∧
        (ReleasesOnly heap ⟨0x300000, 10⟩ ↔
          ∀ other ∈ heap.live.erase ⟨0x300000, 10⟩,
            other.start ≠ 0x300000) := by
  rcases empty_block_run with ⟨heap, run, live⟩
  have member : (⟨0x300000, 10⟩ : Block) ∈ heap.live := by
    rw [live]
    exact List.mem_cons_self
  exact ⟨heap, run, (free_releases_only_iff run).2 _ member⟩

/-- Giving the empty block back releases the ten bytes as well. -/
theorem empty_block_takes_the_next :
    ∃ heap,
      Run UnsharedStep (HeapState.initial sampleBuffer)
          [.malloc 0, .malloc 10] heap ∧
        ⟨0x300000, 0⟩ ∈ heap.live ∧
          ¬ ReleasesOnly heap ⟨0x300000, 0⟩ := by
  rcases empty_block_run with ⟨heap, run, live⟩
  rcases account_of_run (account_initial sampleBuffer) run with
    ⟨entries, account⟩
  have member : (⟨0x300000, 0⟩ : Block) ∈ heap.live := by
    rw [live]
    exact List.mem_cons_of_mem _ List.mem_cons_self
  refine ⟨heap, run, member, ?_⟩
  rw [account.releasesOnly_iff member, Unshared, live]
  decide

end NopOS.Heap.EmptyBlocks
