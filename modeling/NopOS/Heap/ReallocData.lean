import NopOS.Heap.Reclaim

/-!
# The data of a block which is reallocated

`_realloc` gives the block back and allocates; it copies nothing.  The client
may have stored anything in its blocks.  Its data is found again exactly if
the allocation returns the same place: the block is the entry on top, and
nothing dead lies under it.
-/

namespace NopOS.Heap.ReallocData

open NopOS.Lib.Blocks
open NopOS.Lib.BlockStack
open NopOS.Lib.StatefulProgram
open NopOS.Lib.LabelledRun
open NopOS.Heap.MallocPool
open NopOS.Heap.PoolRefinement
open NopOS.Heap.HeapRuns
open NopOS.Heap.Reclaim

/-! ## Data in the blocks -/

/-- The byte at an address of the buffer. -/
def byteAt (pool : Pool) (address : Nat) : BitVec 8 :=
  pool.buf (address - pool.p.toNat)

/-- One byte is stored at an address of the buffer. -/
def HeapState.store (heap : HeapState) (address : Nat) (value : BitVec 8) :
    HeapState :=
  { heap with
    pool :=
      { heap.pool with
        buf :=
          Function.update heap.pool.buf (address - heap.pool.p.toNat)
            value } }

/-- A store of the client into a block it holds. -/
structure StoreStep
    (block : Block) (before : HeapState) (store : Nat × BitVec 8)
    (after : HeapState) : Prop where
  inside : block.start ≤ store.1 ∧ store.1 < block.stop
  stored : after = HeapState.store before store.1 store.2

/-- What the client does: it calls the library, or stores a byte. -/
inductive ClientEvent where
  | call (call : HeapCall)
  | store (address : Nat) (value : BitVec 8)

/-- A call, or a store into a block which the client holds. -/
def ClientStep (before : HeapState) :
    ClientEvent → HeapState → Prop
  | .call call, after => HeapStep before call after
  | .store address value, after =>
      ∃ block ∈ before.live, StoreStep block before (address, value) after

/-- The data of the block is found at the pointer returned, as far as it is
long enough, and the other blocks are unchanged. -/
def KeepsData (heap : HeapState) (block : Block) (sz : BitVec 64) : Prop :=
  ∃ q after,
    MallocPool.realloc (BitVec.ofNat 64 block.start) sz heap.pool =
        .ok q after ∧
      (∀ i, i < min block.size sz.toNat →
        byteAt after (q.toNat + i) = byteAt heap.pool (block.start + i)) ∧
      ∀ other ∈ heap.live.erase block, ∀ i, i < other.size →
        byteAt after (other.start + i) =
          byteAt heap.pool (other.start + i)

/-- The block is the last entry of the table, and the entry before it, if
there is one, is live. -/
structure OnTop (pool : Pool) (block : Block) : Prop where
  last :
    (block.start : Int) = pool.p.toNat + pool.alloc (pool.nalloc - 1)
  under : pool.nalloc = 1 ∨ pool.alloc (pool.nalloc - 2) ≠ -1

/-! ## The account of the client -/

/-- The account of the client is sound, and no entry of the stack is empty or
dead on top. -/
structure Account
    (buffer : Buffer) (heap : HeapState) (entries : List Entry) : Prop where
  sound : Sound buffer heap entries
  trimmed : Trimmed entries
  solid : Solid entries

namespace Account

variable {buffer : Buffer} {heap : HeapState} {entries : List Entry}

/-- A call of the allocator keeps the account. -/
theorem call
    (account : Account buffer heap entries) {call : HeapCall}
    {after : HeapState} (step : HeapStep heap call after) :
    Account buffer after (call.entriesAfter heap.pool entries) where
  sound := step.sound account.sound
  trimmed := call.trimmed_entriesAfter _ _
  solid := by
    have released : Solid (call.entriesReleased heap.pool entries) := by
      rw [HeapCall.entriesReleased]
      split
      · exact solid_giveBack account.solid _
      · exact account.solid
    have positive := step.allowed.positive
    rw [HeapCall.entriesAfter]
    cases requested : call.requesting with
    | none => exact released
    | some size => exact solid_push (positive size requested) released

/-- A store into a block changes no table. -/
theorem store
    (account : Account buffer heap entries) {block : Block}
    {store : Nat × BitVec 8} {after : HeapState}
    (step : StoreStep block heap store after) :
    Account buffer after entries ∧ after.live = heap.live := by
  rcases step with ⟨-, rfl⟩
  exact
    ⟨{ sound :=
        { represents := account.sound.represents.set_buf _
          p_eq := account.sound.p_eq
          live_eq := account.sound.live_eq
          notEmpty := account.sound.notEmpty }
       trimmed := account.trimmed
       solid := account.solid }, rfl⟩

/-- Nor do any number of them. -/
theorem stores
    (account : Account buffer heap entries) {block : Block}
    {stores : List (Nat × BitVec 8)} {filled : HeapState}
    (run : Run (StoreStep block) heap stores filled) :
    Account buffer filled entries ∧ filled.live = heap.live := by
  refine
    run.invariant
      (fun state =>
        Account buffer state entries ∧ state.live = heap.live)
      ⟨account, rfl⟩ ?_
  rintro store before after ⟨beforeAccount, sameLive⟩ step
  rcases beforeAccount.store step with ⟨afterAccount, same⟩
  exact ⟨afterAccount, same.trans sameLive⟩

end Account

/-- The account holds after every run of calls and stores. -/
theorem account_of_run
    {buffer : Buffer} {events : List ClientEvent} {heap : HeapState}
    (run : Run ClientStep (HeapState.initial buffer) events heap) :
    ∃ entries, Account buffer heap entries := by
  refine
    run.invariant (fun heap => ∃ entries, Account buffer heap entries)
      ⟨[], sound_initial buffer, trimmed_nil, by simp [Solid]⟩ ?_
  rintro event before after ⟨entries, account⟩ step
  cases event with
  | call call => exact ⟨_, account.call step⟩
  | store address value =>
      rcases step with ⟨block, -, stored⟩
      exact ⟨entries, (account.store stored).1⟩

/-- A request which fits changes no byte. -/
theorem Account.malloc
    {buffer : Buffer} {heap : HeapState} {entries : List Entry}
    (account : Account buffer heap entries) (sz : BitVec 64)
    (positive : 1 ≤ sz.toNat)
    (fits :
      (height entries : Int) + sz.toNat ≤ bufSize ∧
        (entries.length : Int) < maxAlloc) :
    ∃ after,
      ClientStep heap (.call (.malloc sz))
          ⟨after,
            ⟨buffer.address.toNat + height entries, sz.toNat⟩ ::
              heap.live⟩ ∧
        after.buf = heap.pool.buf := by
  have represents := account.sound.represents
  have room := (fits_iff represents sz.toNat).2 fits
  rcases poolAlloc_of_fits represents account.sound.p_eq room with
    ⟨rv, after, returns, rvEq, -, -, sameBuf⟩
  rw [← rvEq]
  refine ⟨after, ?_, sameBuf⟩
  have allowed : Allowed heap (.malloc sz) :=
    { known := by
        rintro ptr released
        cases released
      fits := by
        rintro size requested
        cases requested
        exact room
      positive := by
        rintro size requested
        cases requested
        exact positive }
  exact ⟨allowed, rv, returns, rfl⟩

/-! ## One reallocation -/

namespace Account

variable {buffer : Buffer} {heap : HeapState} {entries : List Entry}
variable {block : Block}

/-- Where the block lies in the buffer. -/
theorem offset_of_mem
    (account : Account buffer heap entries) (member : block ∈ heap.live) :
    ∃ held ∈ blocks entries,
      block = Block.shift buffer.address.toNat held := by
  rw [account.sound.live_eq, List.mem_map] at member
  rcases member with ⟨held, member, rfl⟩
  exact ⟨held, member, rfl⟩

/-- Where the pointer to a block points in the buffer. -/
theorem freeOffset_start
    (account : Account buffer heap entries) {held : Block}
    (member : held ∈ blocks entries) :
    freeOffset heap.pool
        (BitVec.ofNat 64 (buffer.address.toNat + held.start)) =
      held.start := by
  have bytesFit := account.sound.represents.bytesFit
  have below := blocks_below entries held member
  rw [Block.stop] at below
  rw [bufSize] at bytesFit
  rw [(freeOffset_ofNat account.sound.p_eq (by omega)).2]
  omega

/-- The room for a request once the block is given back. -/
theorem fits_released_iff
    (account : Account buffer heap entries) {held : Block}
    (member : held ∈ blocks entries) (sz : BitVec 64) :
    Fits
        ((HeapCall.realloc
          (BitVec.ofNat 64 (buffer.address.toNat + held.start))
          sz).poolReleased heap.pool) sz.toNat ↔
      (height (giveBack held.start entries) : Int) + sz.toNat ≤ bufSize ∧
        ((giveBack held.start entries).length : Int) < maxAlloc := by
  have released :=
    (represents_released account.sound.represents
      (.realloc (BitVec.ofNat 64 (buffer.address.toNat + held.start))
        sz)).1
  rw [HeapCall.entriesReleased] at released
  simp only [HeapCall.releasing] at released
  rw [account.freeOffset_start member] at released
  exact fits_iff released sz.toNat

/-- `_realloc` changes no byte of the buffer, and returns the first place
which is free once the block is given back. -/
theorem realloc_spec
    (account : Account buffer heap entries) {held : Block}
    (member : held ∈ blocks entries) (sz : BitVec 64)
    (fits :
      (height (giveBack held.start entries) : Int) + sz.toNat ≤ bufSize ∧
        ((giveBack held.start entries).length : Int) < maxAlloc) :
    ∃ q after,
      MallocPool.realloc
          (BitVec.ofNat 64 (buffer.address.toNat + held.start)) sz
          heap.pool = .ok q after ∧
        q.toNat =
          buffer.address.toNat + height (giveBack held.start entries) ∧
        ∀ address, byteAt after address = byteAt heap.pool address := by
  have represents := account.sound.represents
  have placed := account.sound.p_eq
  rcases
      poolFree_spec represents
        (BitVec.ofNat 64 (buffer.address.toNat + held.start)) with
    ⟨middle, releases, released, middleP, middleBuf⟩
  rw [account.freeOffset_start member] at released
  rcases
      poolAlloc_of_fits released (middleP.trans placed)
        ((fits_iff released sz.toNat).2 fits) with
    ⟨q, after, allocates, qEq, -, afterP, afterBuf⟩
  refine ⟨q, after, ?_, qEq, ?_⟩
  · rw [MallocPool.realloc, bind_of_ok releases]
    exact allocates
  · intro address
    rw [byteAt, byteAt, afterBuf, middleBuf, afterP, placed]

/-- The condition on the tables is that on the stack. -/
theorem onTop_iff
    (account : Account buffer heap entries) {held : Block}
    (member : held ∈ blocks entries) :
    OnTop heap.pool (Block.shift buffer.address.toNat held) ↔
      height (giveBack held.start entries) = held.start := by
  have represents := account.sound.represents
  cases entries with
  | nil => cases member
  | cons entry entries =>
      rcases represents.top with ⟨top, -, atAlloc⟩
      rw [account.trimmed.live_top, if_pos rfl] at atAlloc
      rw [height_giveBack_eq_iff account.trimmed account.solid member]
      have last :
          ((Block.shift buffer.address.toNat held).start : Int) =
              heap.pool.p.toNat +
                heap.pool.alloc (heap.pool.nalloc - 1) ↔
            height entries = held.start := by
        rw [top, atAlloc, account.sound.p_eq, Block.shift]
        push_cast
        omega
      have under :
          heap.pool.nalloc = 1 ∨
              heap.pool.alloc (heap.pool.nalloc - 2) ≠ -1 ↔
            Trimmed entries := by
        cases entries with
        | nil => simp [represents.nalloc_eq, trimmed_nil]
        | cons second rest =>
            have below := represents.under.top
            have nallocEq := represents.nalloc_eq
            have index : heap.pool.nalloc - 2 = rest.length := by
              rw [nallocEq]
              push_cast [List.length_cons]
              ring
            have notOne : heap.pool.nalloc ≠ 1 := by
              rw [nallocEq]
              push_cast [List.length_cons]
              omega
            rw [trimmed_cons_iff, index, below.2.2]
            cases alive : second.live with
            | true => simp [notOne, height_ne_dead]
            | false => simp [notOne]
      rw [← last, ← under]
      constructor
      · intro onTop
        exact ⟨onTop.last, onTop.under⟩
      · rintro ⟨isLast, isUnder⟩
        exact ⟨isLast, isUnder⟩

/-- On top the block stays where it is. -/
theorem keepsData_of_same
    (account : Account buffer heap entries) {held : Block}
    {sz : BitVec 64} (member : held ∈ blocks entries)
    (fits :
      (height (giveBack held.start entries) : Int) + sz.toNat ≤ bufSize ∧
        ((giveBack held.start entries).length : Int) < maxAlloc)
    (same : height (giveBack held.start entries) = held.start) :
    KeepsData heap (Block.shift buffer.address.toNat held) sz := by
  rcases account.realloc_spec member sz fits with
    ⟨q, after, returns, qEq, sameBytes⟩
  refine ⟨q, after, returns, ?_, ?_⟩
  · intro i inside
    rw [sameBytes, qEq, same]
    rfl
  · intro other held i inside
    exact sameBytes _

/-- Elsewhere there is data which is not found again. -/
theorem same_of_keepsData
    (account : Account buffer heap entries) {held : Block}
    {sz : BitVec 64} (member : held ∈ blocks entries)
    (positive : 1 ≤ sz.toNat)
    (fits :
      (height (giveBack held.start entries) : Int) + sz.toNat ≤ bufSize ∧
        ((giveBack held.start entries).length : Int) < maxAlloc)
    (keeps :
      ∀ stores filled,
        Run (StoreStep (Block.shift buffer.address.toNat held)) heap stores
            filled →
          KeepsData filled (Block.shift buffer.address.toNat held) sz) :
    height (giveBack held.start entries) = held.start := by
  have notEmpty := blocks_positive account.solid held member
  by_contra elsewhere
  let start := buffer.address.toNat + held.start
  let found :=
    buffer.address.toNat + height (giveBack held.start entries)
  let value := byteAt heap.pool found + 1
  have step :
      StoreStep (Block.shift buffer.address.toNat held) heap (start, value)
        (HeapState.store heap start value) := by
    refine ⟨⟨Nat.le_refl _, ?_⟩, rfl⟩
    simp only [start, Block.stop, Block.shift]
    omega
  rcases (account.store step).1.realloc_spec member sz fits with
    ⟨q, after, returns, qEq, sameBytes⟩
  rcases keeps _ _ (.step .start step) with
    ⟨other, otherAfter, otherReturns, kept, -⟩
  rw [Block.shift] at otherReturns
  rw [returns] at otherReturns
  cases otherReturns
  have first := kept 0 (lt_min notEmpty positive)
  rw [sameBytes, qEq] at first
  have atFound :
      byteAt (HeapState.store heap start value).pool found =
        byteAt heap.pool found := by
    rw [byteAt, byteAt, HeapState.store]
    apply Function.update_of_ne
    simp only [start, found]
    omega
  have atStart :
      byteAt (HeapState.store heap start value).pool start = value := by
    rw [byteAt, HeapState.store]
    exact Function.update_self _ _ _
  have equal : byteAt heap.pool found = byteAt heap.pool found + 1 :=
    atFound.symm.trans (first.trans atStart)
  simp at equal

end Account

/-! ## Runs -/

/-- In every run a block keeps its data, whatever the client stored in it,
exactly if it is on top with no dead entry under it. -/
theorem realloc_keeps_data_iff
    {buffer : Buffer} {events : List ClientEvent} {heap : HeapState}
    (run : Run ClientStep (HeapState.initial buffer) events heap)
    {block : Block} (member : block ∈ heap.live) {sz : BitVec 64}
    (positive : 1 ≤ sz.toNat)
    (fits :
      Fits
        ((HeapCall.realloc (BitVec.ofNat 64 block.start) sz).poolReleased
          heap.pool) sz.toNat) :
    (∀ stores filled, Run (StoreStep block) heap stores filled →
        KeepsData filled block sz) ↔
      OnTop heap.pool block := by
  rcases account_of_run run with ⟨entries, account⟩
  rcases account.offset_of_mem member with ⟨held, heldMember, rfl⟩
  have room := (account.fits_released_iff heldMember sz).1 fits
  rw [account.onTop_iff heldMember]
  constructor
  · exact account.same_of_keepsData heldMember positive room
  · intro same stores filled storing
    exact
      (account.stores storing).1.keepsData_of_same heldMember room same

/-- Two blocks of a byte each at the start of the buffer. -/
theorem two_blocks_run :
    ∃ heap,
      Run ClientStep (HeapState.initial sampleBuffer)
          [.call (.malloc 1), .call (.malloc 1)] heap ∧
        heap.live = [⟨0x300001, 1⟩, ⟨0x300000, 1⟩] ∧
        heap.pool.buf = (fun _ => 0) ∧
        Account sampleBuffer heap [⟨1, true⟩, ⟨1, true⟩] := by
  have initially : Account sampleBuffer (HeapState.initial sampleBuffer) [] :=
    ⟨sound_initial sampleBuffer, trimmed_nil, by simp [Solid]⟩
  rcases initially.malloc 1 (by decide) (by decide) with
    ⟨pool, first, firstBuf⟩
  have account := initially.call first
  rcases account.malloc 1 (by decide) (by decide) with
    ⟨after, second, secondBuf⟩
  exact
    ⟨_, .step (.step .start first) second, rfl, secondBuf.trans firstBuf,
      account.call second⟩

/-- The upper of two blocks stays where it is. -/
theorem realloc_keeps_data_iff_two_blocks :
    ∃ heap,
      Run ClientStep (HeapState.initial sampleBuffer)
          [.call (.malloc 1), .call (.malloc 1)] heap ∧
        ((∀ stores filled,
            Run (StoreStep ⟨0x300001, 1⟩) heap stores filled →
              KeepsData filled ⟨0x300001, 1⟩ 8) ↔
          OnTop heap.pool ⟨0x300001, 1⟩) := by
  rcases two_blocks_run with ⟨heap, run, live, -, account⟩
  have member : (⟨0x300001, 1⟩ : Block) ∈ heap.live := by
    rw [live]
    exact List.mem_cons_self
  have held : (⟨1, 1⟩ : Block) ∈ blocks [⟨1, true⟩, ⟨1, true⟩] := by
    decide
  refine ⟨heap, run, realloc_keeps_data_iff run member (by decide) ?_⟩
  exact (account.fits_released_iff held 8).2 (by decide)

/-- The lower of two blocks, with a 1 in it, is moved above the other one, and
the 1 stays behind. -/
theorem lower_block_loses_its_data :
    ∃ heap,
      Run ClientStep (HeapState.initial sampleBuffer)
          [.call (.malloc 1), .call (.malloc 1), .store 0x300000 1]
          heap ∧
        ⟨0x300000, 1⟩ ∈ heap.live ∧
        Fits ((HeapCall.realloc 0x300000 1).poolReleased heap.pool) 1 ∧
        ¬ KeepsData heap ⟨0x300000, 1⟩ 1 := by
  rcases two_blocks_run with ⟨heap, run, live, buf, account⟩
  have member : (⟨0x300000, 1⟩ : Block) ∈ heap.live := by
    rw [live]
    exact List.mem_cons_of_mem _ List.mem_cons_self
  have stores :
      StoreStep ⟨0x300000, 1⟩ heap (0x300000, 1)
        (HeapState.store heap 0x300000 1) :=
    ⟨by decide, rfl⟩
  have held : (⟨0, 1⟩ : Block) ∈ blocks [⟨1, true⟩, ⟨1, true⟩] := by
    decide
  have filledAccount := (account.store stores).1
  refine
    ⟨_, .step run ⟨_, member, stores⟩, member,
      (filledAccount.fits_released_iff held 1).2 (by decide), ?_⟩
  rintro ⟨q, after, returns, kept, -⟩
  rcases filledAccount.realloc_spec held 1 (by decide) with
    ⟨place, last, moves, placeEq, sameBytes⟩
  have same : EStateM.Result.ok q after = EStateM.Result.ok place last :=
    returns.symm.trans moves
  cases same
  have moved : q.toNat = 0x300002 := placeEq
  have first := kept 0 (by decide)
  have placed : heap.pool.p = 0x300000 := account.sound.p_eq
  rw [sameBytes, moved, byteAt, byteAt, HeapState.store] at first
  simp [placed, buf, Function.update] at first

end NopOS.Heap.ReallocData
