import NopOS.Lib.LabelledRun
import NopOS.Heap.PoolRefinement

/-!
# Runs of the heap and its client

A client calls `malloc`, `calloc`, `realloc` and `free` and keeps account of
the blocks it holds.  The account is kept by the client's rules only: a
request adds the block returned, and a release takes out the block given.
In every run within the pool's capacity the account is that of the stack the
pool represents, so the blocks held are sound.
-/

namespace NopOS.Heap.HeapRuns

open NopOS.Lib.Blocks
open NopOS.Lib.BlockStack
open NopOS.Lib.StatefulProgram
open NopOS.Lib.LabelledRun
open NopOS.Heap.MallocPool
open NopOS.Heap.PoolRefinement

/-- Where the linker placed `buf`: in low memory, but not at 0. -/
structure Buffer where
  address : BitVec 64
  notNull : 0 < address.toNat
  below : address.toNat + 100000 < 2 ^ 31

/-- The pool and the blocks its client holds. -/
structure HeapState where
  pool : Pool
  live : List Block

/-- Nothing is allocated. -/
def HeapState.initial (buffer : Buffer) : HeapState where
  pool := Pool.initial buffer.address
  live := []

/-! ## Calls -/

/-- The calls of the library, with their arguments. -/
inductive HeapCall where
  | malloc (sz : BitVec 64)
  | calloc (nmemb size : BitVec 64)
  | realloc (ptr sz : BitVec 64)
  | free (ptr : BitVec 64)

namespace HeapCall

/-- What the library does; `free` returns nothing. -/
def perform : HeapCall → Exec (BitVec 64)
  | malloc sz => MallocPool.malloc sz
  | calloc nmemb size => MallocPool.calloc nmemb size
  | realloc ptr sz => MallocPool.realloc ptr sz
  | free ptr => do
      MallocPool.free ptr
      return 0

/-- The pointer a call gives back. -/
def releasing : HeapCall → Option (BitVec 64)
  | realloc ptr _ => some ptr
  | free ptr => some ptr
  | _ => none

/-- The number of bytes a call asks for. -/
def requesting : HeapCall → Option Nat
  | malloc sz => some sz.toNat
  | calloc nmemb size => some (nmemb.toNat * size.toNat)
  | realloc _ sz => some sz.toNat
  | free _ => none

/-- The pool once the pointer has been given back. -/
def poolReleased (call : HeapCall) (pool : Pool) : Pool :=
  match call.releasing with
  | some ptr => finalState (poolFree ptr pool)
  | none => pool

/-- The client's account after a call. -/
def liveAfter (call : HeapCall) (rv : BitVec 64) (live : List Block) :
    List Block :=
  let kept :=
    match call.releasing with
    | some ptr => release ptr.toNat live
    | none => live
  match call.requesting with
  | some size => ⟨rv.toNat, size⟩ :: kept
  | none => kept

/-- The client's account once the pointer has been given back. -/
def liveReleased (call : HeapCall) (live : List Block) : List Block :=
  match call.releasing with
  | some ptr => release ptr.toNat live
  | none => live

theorem liveAfter_eq
    (call : HeapCall) (rv : BitVec 64) (live : List Block) :
    call.liveAfter rv live =
      match call.requesting with
      | some size => ⟨rv.toNat, size⟩ :: call.liveReleased live
      | none => call.liveReleased live := rfl

/-- The stack of the pool once the pointer has been given back. -/
def entriesReleased (call : HeapCall) (pool : Pool) (entries : List Entry) :
    List Entry :=
  match call.releasing with
  | some ptr => giveBack (freeOffset pool ptr) entries
  | none => entries

/-- The stack of the pool after a call. -/
def entriesAfter (call : HeapCall) (pool : Pool) (entries : List Entry) :
    List Entry :=
  match call.requesting with
  | some size => push size (call.entriesReleased pool entries)
  | none => call.entriesReleased pool entries

/-- A call leaves no dead entry on top. -/
theorem trimmed_entriesAfter
    (call : HeapCall) (pool : Pool) (entries : List Entry) :
    Trimmed (call.entriesAfter pool entries) := by
  cases call with
  | malloc sz => exact trimmed_push _ _
  | calloc nmemb size => exact trimmed_push _ _
  | realloc ptr sz => exact trimmed_push _ _
  | free ptr => exact trimmed_giveBack _ _

end HeapCall

/-- A pointer the client may give back. -/
def Known (live : List Block) (ptr : BitVec 64) : Prop :=
  ptr = 0 ∨ ∃ block ∈ live, block.start = ptr.toNat

/-- The pool has the bytes and a table entry for a request. -/
def Fits (pool : Pool) (size : Nat) : Prop :=
  pool.n + size ≤ pool.total ∧ pool.nalloc < maxAlloc

/-- A call which keeps to the rules and to the capacity. -/
structure Allowed (heap : HeapState) (call : HeapCall) : Prop where
  known : ∀ ptr, call.releasing = some ptr → Known heap.live ptr
  fits :
    ∀ size, call.requesting = some size →
      Fits (call.poolReleased heap.pool) size
  positive : ∀ size, call.requesting = some size → 1 ≤ size

/-- An allowed call which returned, with the account of the client. -/
structure HeapStep (before : HeapState) (call : HeapCall) (after : HeapState) :
    Prop where
  allowed : Allowed before call
  returns :
    ∃ rv,
      call.perform before.pool = .ok rv after.pool ∧
        after.live = call.liveAfter rv before.live

/-- Calls one after the other from the empty pool. -/
abbrev HeapRun (buffer : Buffer) :=
  Run HeapStep (HeapState.initial buffer)

/-! ## A request which fits -/

/-- What is returned is the end of the used part. -/
theorem toNat_rv
    {buffer : Buffer} {pool : Pool} {entries : List Entry}
    (represents : Represents pool entries)
    (placed : pool.p = buffer.address) :
    (BitVec.ofInt 64 (pool.p.toNat + height entries)).toNat =
      buffer.address.toNat + height entries := by
  have below := buffer.below
  have bytesFit := represents.bytesFit
  rw [bufSize] at bytesFit
  rw [placed, BitVec.toNat_ofInt]
  omega

/-- A request that fits is served at the top of the pool. -/
theorem poolAlloc_of_fits
    {buffer : Buffer} {pool : Pool} {entries : List Entry} {size : Nat}
    (represents : Represents pool entries)
    (placed : pool.p = buffer.address) (fits : Fits pool size) :
    ∃ rv after,
      poolAlloc (int size) pool = .ok rv after ∧
        rv.toNat = buffer.address.toNat + height entries ∧
        Represents after (push size entries) ∧
        after.p = buffer.address ∧ after.buf = pool.buf := by
  rcases fits with ⟨bytes, entriesLeft⟩
  rw [represents.n_eq, represents.total_eq] at bytes
  rw [represents.nalloc_eq] at entriesLeft
  rcases poolAlloc_spec represents entriesLeft bytes with
    ⟨after, runs, pushed, sameP, sameBuf⟩
  rw [bufSize] at bytes
  have sizeEq : int size = size := int_of_small (by omega) (by omega)
  rw [sizeEq]
  exact
    ⟨_, after, runs, toNat_rv represents placed, pushed,
      sameP.trans placed, sameBuf⟩

/-- `memset` within the pool changes its bytes only. -/
theorem memsetZero_spec
    {pool : Pool} {s n : BitVec 64}
    (lower : pool.p.toNat ≤ s.toNat)
    (upper : (s.toNat : Int) + n.toNat ≤ pool.p.toNat + bufSize) :
    ∃ after,
      memsetZero s n pool = .ok () after ∧
        ∃ buf, after = { pool with buf := buf } := by
  rw [memsetZero, bind_of_ok (get_run pool)]
  by_cases zero : n = 0
  · rw [if_pos zero]
    exact ⟨pool, rfl, pool.buf, rfl⟩
  · rw [if_neg zero, if_pos (by omega)]
    exact ⟨_, rfl, _, rfl⟩

/-- The product of the arguments of `calloc` does not wrap if it fits. -/
theorem toNat_product
    {pool : Pool} {entries : List Entry}
    (represents : Represents pool entries) {nmemb size : BitVec 64}
    (fits : Fits pool (nmemb.toNat * size.toNat)) :
    (nmemb * size).toNat = nmemb.toNat * size.toNat := by
  have nEq := represents.n_eq
  have totalEq := represents.total_eq
  have bytes := fits.1
  simp only [bufSize] at totalEq
  rw [BitVec.toNat_mul, Nat.mod_eq_of_lt]
  omega

/-- `calloc` is a request of the product, which is cleared. -/
theorem calloc_of_fits
    {buffer : Buffer} {pool : Pool} {entries : List Entry}
    {nmemb size : BitVec 64}
    (represents : Represents pool entries)
    (placed : pool.p = buffer.address)
    (fits : Fits pool (nmemb.toNat * size.toNat)) :
    ∃ rv after,
      calloc nmemb size pool = .ok rv after ∧
        rv.toNat = buffer.address.toNat + height entries ∧
        Represents after (push (nmemb.toNat * size.toNat) entries) ∧
        after.p = buffer.address := by
  have productEq := toNat_product represents fits
  rcases poolAlloc_of_fits represents placed fits with
    ⟨rv, middle, runs, rvEq, pushed, sameP, -⟩
  have top := pushed.bytesFit
  rw [height_push] at top
  have lower : middle.p.toNat ≤ rv.toNat := by
    rw [sameP]
    omega
  have upper :
      (rv.toNat : Int) + (nmemb * size).toNat ≤
        middle.p.toNat + bufSize := by
    rw [sameP, productEq]
    omega
  rcases memsetZero_spec lower upper with ⟨after, clears, buf, rfl⟩
  refine ⟨rv, { middle with buf := buf }, ?_, rvEq, pushed.set_buf buf, sameP⟩
  rw [calloc, malloc, productEq, bind_of_ok runs, bind_of_ok clears]
  rfl

/-- What is left when the pointer has been given back. -/
theorem represents_released
    {pool : Pool} {entries : List Entry}
    (represents : Represents pool entries) (call : HeapCall) :
    Represents (call.poolReleased pool)
        (call.entriesReleased pool entries) ∧
      (call.poolReleased pool).p = pool.p := by
  rw [HeapCall.poolReleased, HeapCall.entriesReleased]
  cases call.releasing with
  | none => exact ⟨represents, rfl⟩
  | some ptr =>
      rcases poolFree_spec represents ptr with
        ⟨after, runs, released, sameP, -⟩
      simp only [runs, finalState_ok]
      exact ⟨released, sameP⟩

/-- Every call which keeps to the capacity returns, whatever is given back. -/
theorem perform_represents
    {buffer : Buffer} {pool : Pool} {entries : List Entry}
    {call : HeapCall}
    (represents : Represents pool entries)
    (placed : pool.p = buffer.address)
    (fits :
      ∀ size, call.requesting = some size →
        Fits (call.poolReleased pool) size) :
    ∃ rv after,
      call.perform pool = .ok rv after ∧
        Represents after (call.entriesAfter pool entries) ∧
        after.p = buffer.address ∧
        ∀ size, call.requesting = some size →
          rv.toNat =
            buffer.address.toNat +
              height (call.entriesReleased pool entries) := by
  cases call with
  | malloc sz =>
      rcases poolAlloc_of_fits represents placed (fits _ rfl) with
        ⟨rv, after, runs, rvEq, pushed, sameP, -⟩
      exact ⟨rv, after, runs, pushed, sameP, fun _ _ => rvEq⟩
  | calloc nmemb size =>
      rcases calloc_of_fits represents placed (fits _ rfl) with
        ⟨rv, after, runs, rvEq, pushed, sameP⟩
      exact ⟨rv, after, runs, pushed, sameP, fun _ _ => rvEq⟩
  | realloc ptr sz =>
      rcases poolFree_spec represents ptr with
        ⟨middle, releases, released, sameP, -⟩
      have room := fits _ rfl
      simp only [HeapCall.poolReleased, HeapCall.releasing, releases,
        finalState_ok] at room
      rcases poolAlloc_of_fits released (sameP.trans placed) room with
        ⟨rv, after, runs, rvEq, pushed, sameAfter, -⟩
      refine ⟨rv, after, ?_, pushed, sameAfter, fun _ _ => rvEq⟩
      rw [HeapCall.perform, MallocPool.realloc, bind_of_ok releases]
      exact runs
  | free ptr =>
      rcases poolFree_spec represents ptr with
        ⟨after, releases, released, sameP, -⟩
      refine ⟨0, after, ?_, released, sameP.trans placed, ?_⟩
      · rw [HeapCall.perform, MallocPool.free, bind_of_ok releases]
        rfl
      · intro size requested
        cases requested

/-! ## The account of the client -/

/-- The client holds the live blocks of the stack, and none is empty. -/
structure Sound (buffer : Buffer) (heap : HeapState) (entries : List Entry) :
    Prop where
  represents : Represents heap.pool entries
  p_eq : heap.pool.p = buffer.address
  live_eq :
    heap.live = (blocks entries).map (Block.shift buffer.address.toNat)
  notEmpty : NotEmpty heap.live

/-- The empty pool. -/
theorem sound_initial (buffer : Buffer) :
    Sound buffer (HeapState.initial buffer) [] where
  represents := represents_initial buffer.address
  p_eq := rfl
  live_eq := rfl
  notEmpty := by simp [NotEmpty, HeapState.initial]

namespace Sound

variable {buffer : Buffer} {heap : HeapState} {entries : List Entry}

theorem separated (sound : Sound buffer heap entries) :
    Separated heap.live := by
  rw [sound.live_eq]
  exact (blocks_separated entries).shift _

/-- Every live block lies in the used part of the buffer. -/
theorem within (sound : Sound buffer heap entries) :
    ∀ block ∈ heap.live,
      buffer.address.toNat ≤ block.start ∧
        (block.start : Int) + block.size ≤
          buffer.address.toNat + heap.pool.n := by
  intro block member
  rw [sound.live_eq, List.mem_map] at member
  rcases member with ⟨offsets, member, rfl⟩
  have below := blocks_below entries offsets member
  have nEq := sound.represents.n_eq
  simp only [Block.stop] at below
  simp only [Block.shift]
  omega

/-- The comparison in `pool_free` is made on the offset of the pointer. -/
theorem freeOffset_eq
    (sound : Sound buffer heap entries) {ptr : BitVec 64}
    (known : Known heap.live ptr) :
    freeOffset heap.pool ptr = ptr.toNat - buffer.address.toNat := by
  have notNull := buffer.notNull
  have below := buffer.below
  have upper : (ptr.toNat : Int) < 2 ^ 31 := by
    rcases known with rfl | ⟨block, member, start⟩
    · decide
    · have nEq := sound.represents.n_eq
      have bytesFit := sound.represents.bytesFit
      have within := sound.within block member
      simp only [bufSize] at bytesFit
      omega
  rw [freeOffset, sound.p_eq]
  exact int_of_small (by omega) (by omega)

/-- The live blocks after a release are the entries that are kept. -/
theorem live_released
    (sound : Sound buffer heap entries) {call : HeapCall}
    (known : ∀ ptr, call.releasing = some ptr → Known heap.live ptr) :
    call.liveReleased heap.live =
      (blocks (call.entriesReleased heap.pool entries)).map
        (Block.shift buffer.address.toNat) := by
  rw [HeapCall.liveReleased, HeapCall.entriesReleased]
  cases released : call.releasing with
  | none => exact sound.live_eq
  | some ptr =>
      simp only
      rw [sound.freeOffset_eq (known ptr released),
        release_eq_filter sound.separated sound.notEmpty, sound.live_eq,
        shift_giveBack]

theorem notEmpty_released
    (sound : Sound buffer heap entries) (call : HeapCall) :
    NotEmpty (call.liveReleased heap.live) := by
  rw [HeapCall.liveReleased]
  cases call.releasing with
  | none => exact sound.notEmpty
  | some ptr => exact sound.notEmpty.release _

end Sound

/-- Every allowed call returns and leaves the account sound. -/
theorem perform_spec
    {buffer : Buffer} {heap : HeapState} {entries : List Entry}
    {call : HeapCall}
    (sound : Sound buffer heap entries) (allowed : Allowed heap call) :
    ∃ rv after,
      call.perform heap.pool = .ok rv after ∧
        Sound buffer ⟨after, call.liveAfter rv heap.live⟩
          (call.entriesAfter heap.pool entries) := by
  rcases
      perform_represents sound.represents sound.p_eq allowed.fits with
    ⟨rv, after, returns, represents, placed, rvEq⟩
  refine
    ⟨rv, after, returns,
      { represents := represents
        p_eq := placed
        live_eq := ?_
        notEmpty := ?_ }⟩
  · rw [HeapCall.liveAfter_eq, HeapCall.entriesAfter,
      sound.live_released allowed.known]
    cases requested : call.requesting with
    | none => rfl
    | some size =>
        simp only
        rw [rvEq size requested, blocks_push]
        rfl
  · have kept := sound.notEmpty_released call
    rw [HeapCall.liveAfter_eq]
    cases requested : call.requesting with
    | none => exact kept
    | some size =>
        intro block member
        rcases List.mem_cons.1 member with rfl | member
        · exact allowed.positive size requested
        · exact kept block member

/-! ## Runs -/

/-- Every call keeps the tables and the live blocks in step. -/
theorem HeapStep.sound
    {buffer : Buffer} {before after : HeapState} {entries : List Entry}
    {call : HeapCall}
    (step : HeapStep before call after)
    (sound : Sound buffer before entries) :
    Sound buffer after (call.entriesAfter before.pool entries) := by
  rcases perform_spec sound step.allowed with
    ⟨rv, pool, returns, afterSound⟩
  rcases step.returns with ⟨value, performed, liveEq⟩
  rw [returns] at performed
  simp only [EStateM.Result.ok.injEq] at performed
  rcases performed with ⟨rfl, rfl⟩
  rw [← liveEq] at afterSound
  exact afterSound

/-- And so does every run. -/
theorem sound_of_run
    {buffer : Buffer} {calls : List HeapCall} {heap : HeapState}
    (run : HeapRun buffer calls heap) :
    ∃ entries, Sound buffer heap entries ∧ Trimmed entries := by
  refine
    run.invariant
      (fun heap => ∃ entries, Sound buffer heap entries ∧ Trimmed entries)
      ⟨[], sound_initial buffer, trimmed_nil⟩ ?_
  rintro call before after ⟨entries, sound, -⟩ step
  exact ⟨_, step.sound sound, call.trimmed_entriesAfter _ _⟩

/-- In a run every allowed call can be made. -/
theorem heap_calls_return
    {buffer : Buffer} {calls : List HeapCall} {heap : HeapState}
    {call : HeapCall}
    (run : HeapRun buffer calls heap) (allowed : Allowed heap call) :
    ∃ after, HeapStep heap call after := by
  rcases sound_of_run run with ⟨entries, sound, -⟩
  rcases perform_spec sound allowed with ⟨rv, after, returns, -⟩
  exact
    ⟨⟨after, call.liveAfter rv heap.live⟩, allowed, rv, returns, rfl⟩

/-! ## Runs computed on the stack -/

/-- A request fits a pool exactly if it fits the stack of the pool. -/
theorem fits_iff
    {pool : Pool} {entries : List Entry}
    (represents : Represents pool entries) (size : Nat) :
    Fits pool size ↔
      (height entries : Int) + size ≤ bufSize ∧
        (entries.length : Int) < maxAlloc := by
  rw [Fits, represents.n_eq, represents.total_eq, represents.nalloc_eq]

/-- What a release leaves depends on the stack before it. -/
theorem entriesReleased_congr
    {pool other : Pool} (samePlace : pool.p = other.p) (call : HeapCall)
    (entries : List Entry) :
    call.entriesReleased pool entries =
      call.entriesReleased other entries := by
  rw [HeapCall.entriesReleased, HeapCall.entriesReleased]
  cases call.releasing with
  | none => rfl
  | some ptr =>
      simp only
      rw [freeOffset, freeOffset, samePlace]

/-- The blocks of a stack in the buffer. -/
def heldBlocks (buffer : Buffer) (entries : List Entry) : List Block :=
  (blocks entries).map (Block.shift buffer.address.toNat)

/-- What `entriesReleased` and `entriesAfter` are told of the pool: where it
lies. -/
def poolAt (buffer : Buffer) : Pool := Pool.initial buffer.address

/-- The stack allows the call, as `Allowed` does for the pool. -/
def Permits (buffer : Buffer) (entries : List Entry) (call : HeapCall) :
    Prop :=
  (∀ ptr ∈ call.releasing,
    ptr = 0 ∨ ∃ block ∈ heldBlocks buffer entries, block.start = ptr.toNat) ∧
    ∀ size ∈ call.requesting,
      1 ≤ size ∧
        (height (call.entriesReleased (poolAt buffer) entries) : Int) +
            size ≤ bufSize ∧
          ((call.entriesReleased (poolAt buffer) entries).length : Int) <
            maxAlloc

instance (buffer : Buffer) (entries : List Entry) (call : HeapCall) :
    Decidable (Permits buffer entries call) :=
  -- not by trying all pointers
  @instDecidableAnd _ _ (Option.decidableForallMem _)
    (Option.decidableForallMem _)

/-- A call on the stack alone. -/
structure StackStep
    (buffer : Buffer) (before : List Entry) (call : HeapCall)
    (after : List Entry) : Prop where
  permits : Permits buffer before call
  goes : call.entriesAfter (poolAt buffer) before = after

/-- What the stack permits, the pool does. -/
theorem Sound.next
    {buffer : Buffer} {heap : HeapState} {entries : List Entry}
    {call : HeapCall}
    (sound : Sound buffer heap entries)
    (permits : Permits buffer entries call) :
    ∃ after,
      HeapStep heap call after ∧
        Sound buffer after (call.entriesAfter (poolAt buffer) entries) := by
  have same :
      call.entriesReleased heap.pool entries =
        call.entriesReleased (poolAt buffer) entries :=
    entriesReleased_congr sound.p_eq call entries
  have released := (represents_released sound.represents call).1
  rw [same] at released
  have allowed : Allowed heap call :=
    { known := by
        intro ptr gives
        rw [Known, sound.live_eq]
        exact permits.1 ptr gives
      fits := by
        intro size asks
        rw [fits_iff released]
        exact (permits.2 size asks).2
      positive := fun size asks => (permits.2 size asks).1 }
  rcases perform_spec sound allowed with ⟨rv, after, returns, soundAfter⟩
  rw [HeapCall.entriesAfter, same, ← HeapCall.entriesAfter] at soundAfter
  exact
    ⟨⟨after, call.liveAfter rv heap.live⟩, ⟨allowed, rv, returns, rfl⟩,
      soundAfter⟩

/-- A run on the stack is one of the heap, which holds the blocks of the
stack. -/
theorem heap_run_of_stack
    {buffer : Buffer} {calls : List HeapCall} {entries : List Entry}
    (run : Run (StackStep buffer) [] calls entries) :
    ∃ heap,
      HeapRun buffer calls heap ∧ heap.live = heldBlocks buffer entries := by
  have simulated :
      ∃ heap, HeapRun buffer calls heap ∧ Sound buffer heap entries := by
    refine
      run.invariant_with_history
        (fun calls entries =>
          ∃ heap, HeapRun buffer calls heap ∧ Sound buffer heap entries)
        ⟨_, .start, sound_initial buffer⟩ ?_
    rintro calls call before after - ⟨heap, earlier, sound⟩ step
    rcases sound.next step.permits with ⟨next, goes, soundAfter⟩
    rw [step.goes] at soundAfter
    exact ⟨next, .step earlier goes, soundAfter⟩
  rcases simulated with ⟨heap, heapRun, sound⟩
  exact ⟨heap, heapRun, sound.live_eq⟩

/-! ## Safety -/

/-- The blocks held are sound, and the tables describe them. -/
theorem heap_safety
    {buffer : Buffer} {calls : List HeapCall} {heap : HeapState}
    (run : HeapRun buffer calls heap) :
    Separated heap.live ∧
      (∀ block ∈ heap.live,
        buffer.address.toNat ≤ block.start ∧
          (block.start : Int) + block.size ≤
            buffer.address.toNat + heap.pool.n) ∧
        (0 ≤ heap.pool.nalloc ∧ heap.pool.nalloc ≤ maxAlloc ∧
          heap.pool.n ≤ heap.pool.total) ∧
          heap.pool.n =
              ∑ j ∈ Finset.range heap.pool.nalloc.toNat,
                heap.pool.allocSize j ∧
            ∀ i : Nat, i < heap.pool.nalloc →
              heap.pool.alloc i = -1 ∨
                heap.pool.alloc i =
                  ∑ j ∈ Finset.range i, heap.pool.allocSize j := by
  rcases sound_of_run run with ⟨entries, sound, -⟩
  have represents := sound.represents
  have nallocEq := represents.nalloc_eq
  have length : heap.pool.nalloc.toNat = entries.length := by omega
  refine ⟨sound.separated, sound.within, ⟨?_, ?_, ?_⟩, ?_, ?_⟩
  · omega
  · rw [nallocEq]
    exact represents.entriesFit
  · rw [represents.n_eq, represents.total_eq]
    exact represents.bytesFit
  · rw [represents.n_eq, length, represents.table.height_eq]
  · intro i inside
    exact represents.table.alloc_eq (by omega)

/-- A buffer at 3 MiB. -/
def sampleBuffer : Buffer where
  address := 0x300000
  notNull := by decide
  below := by decide

/-- Three requests behind the history array, of which the middle one is given
back, then the last one with it; the one below is enlarged, and another
request follows. -/
def sampleCalls : List HeapCall :=
  [.malloc 800, .malloc 16, .calloc 4 8, .malloc 8, .free 0x300330,
    .free 0x300350, .realloc 0x300320 64, .malloc 24]

/-- Three blocks are live after a free in the middle, one that gives back two
entries, and a `realloc`. -/
theorem heap_safety_sample :
    ∃ heap,
      HeapRun sampleBuffer sampleCalls heap ∧
        heap.live =
            [⟨0x300360, 24⟩, ⟨0x300320, 64⟩, ⟨0x300000, 800⟩] ∧
          Separated heap.live ∧
            ∀ block ∈ heap.live,
              sampleBuffer.address.toNat ≤ block.start ∧
                (block.start : Int) + block.size ≤
                  sampleBuffer.address.toNat + heap.pool.n := by
  have first : StackStep sampleBuffer [] (.malloc 800) [⟨800, true⟩] :=
    ⟨by decide, by decide⟩
  have second :
      StackStep sampleBuffer [⟨800, true⟩] (.malloc 16)
        [⟨16, true⟩, ⟨800, true⟩] :=
    ⟨by decide, by decide⟩
  have third :
      StackStep sampleBuffer [⟨16, true⟩, ⟨800, true⟩] (.calloc 4 8)
        [⟨32, true⟩, ⟨16, true⟩, ⟨800, true⟩] :=
    ⟨by decide, by decide⟩
  have fourth :
      StackStep sampleBuffer [⟨32, true⟩, ⟨16, true⟩, ⟨800, true⟩] (.malloc 8)
        [⟨8, true⟩, ⟨32, true⟩, ⟨16, true⟩, ⟨800, true⟩] :=
    ⟨by decide, by decide⟩
  -- an entry in the middle is marked, and reclaimed with the one above it
  have middle :
      StackStep sampleBuffer [⟨8, true⟩, ⟨32, true⟩, ⟨16, true⟩, ⟨800, true⟩]
        (.free 0x300330)
        [⟨8, true⟩, ⟨32, false⟩, ⟨16, true⟩, ⟨800, true⟩] :=
    ⟨by decide, by decide⟩
  have cascade :
      StackStep sampleBuffer [⟨8, true⟩, ⟨32, false⟩, ⟨16, true⟩, ⟨800, true⟩]
        (.free 0x300350) [⟨16, true⟩, ⟨800, true⟩] :=
    ⟨by decide, by decide⟩
  have enlarged :
      StackStep sampleBuffer [⟨16, true⟩, ⟨800, true⟩]
        (.realloc 0x300320 64) [⟨64, true⟩, ⟨800, true⟩] :=
    ⟨by decide, by decide⟩
  have last :
      StackStep sampleBuffer [⟨64, true⟩, ⟨800, true⟩] (.malloc 24)
        [⟨24, true⟩, ⟨64, true⟩, ⟨800, true⟩] :=
    ⟨by decide, by decide⟩
  rcases heap_run_of_stack
      (.cons first (.cons second (.cons third (.cons fourth (.cons middle
        (.cons cascade (.cons enlarged (.step .start last)))))))) with
    ⟨heap, run, live⟩
  exact
    ⟨heap, run, live.trans (by decide), (heap_safety run).1,
      (heap_safety run).2.1⟩

end NopOS.Heap.HeapRuns
