import NopOS.Heap.PoolBounds

/-!
# The pool with every assignment guarded

The functions of the pool with a fault for each index outside the tables and
for each assignment which takes `n` or `nalloc` out of its range.  A call for
which they do what the source does keeps to the limits at every moment.
-/

namespace NopOS.Heap.GuardedPool

open NopOS.Lib.BlockStack
open NopOS.Lib.StatefulProgram
open NopOS.Heap.MallocPool
open NopOS.Heap.PoolRefinement
open NopOS.Heap.HeapRuns
open NopOS.Heap.PoolBounds

/-! ## Guarded functions -/

/-- An assignment to `n` which has to stay inside the buffer. -/
def setN (value : Int) : Exec Unit :=
  if 0 ≤ value ∧ value ≤ bufSize then
    modify fun pool => { pool with n := value }
  else throw .outsideBuffer

/-- An assignment to `nalloc` which has to stay inside the tables. -/
def setNalloc (value : Int) : Exec Unit :=
  if 0 ≤ value ∧ value ≤ maxAlloc then
    modify fun pool => { pool with nalloc := value }
  else throw (.index value)

/-- `pool_alloc` with guarded assignments. -/
def poolAllocGuarded (size : Int) : Exec (BitVec 64) := do
  let pool ← get
  let rv := BitVec.ofInt 64 (pool.p.toNat + pool.n)
  writeAlloc pool.nalloc pool.n
  writeAllocSize pool.nalloc size
  setN (int (pool.n + size))
  setNalloc (int (pool.nalloc + 1))
  return rv

/-- The `while` loop of `pool_free` with guarded accesses. -/
def reclaimLoopGuarded : Nat → Exec Unit
  | 0 => throw .outOfFuel
  | fuel + 1 => do
      let pool ← get
      if (← readAllocChecked (pool.nalloc - 1)) = -1 ∧ pool.nalloc ≥ 0 then
        let size ← readAllocSize (pool.nalloc - 1)
        setN (int (pool.n - size))
        setNalloc (int (pool.nalloc - 1))
        reclaimLoopGuarded fuel

/-- `pool_free` with guarded accesses. -/
def poolFreeGuarded (free : BitVec 64) : Exec Unit := do
  let pool ← get
  let offset := int (free.toNat - pool.p.toNat)
  markLoop offset pool.nalloc.toNat
  reclaimLoopGuarded (pool.nalloc + 2).toNat

/-- A call of the library with guarded accesses. -/
def performGuarded : HeapCall → Exec (BitVec 64)
  | .malloc sz => poolAllocGuarded (int sz.toNat)
  | .calloc nmemb size => do
      let rv ← poolAllocGuarded (int (nmemb * size).toNat)
      memsetZero rv (nmemb * size)
      return rv
  | .realloc ptr sz => do
      poolFreeGuarded ptr
      poolAllocGuarded (int sz.toNat)
  | .free ptr => do
      poolFreeGuarded ptr
      return 0

/-- The call returns, and no guard is in its way. -/
def KeepsLimits (pool : Pool) (call : HeapCall) : Prop :=
  ∃ rv after,
    call.perform pool = .ok rv after ∧ performGuarded call pool = .ok rv after

/-! ## The guards are not in the way -/

/-- The guards of `pool_alloc` pass where the request fits. -/
theorem poolAllocGuarded_eq
    {pool : Pool} {entries : List Entry} {size : Nat}
    (represents : Represents pool entries) (fits : Fits pool size) :
    poolAllocGuarded (int size) pool = poolAlloc (int size) pool := by
  have nallocEq := represents.nalloc_eq
  have nEq := represents.n_eq
  have totalEq := represents.total_eq
  rcases fits with ⟨bytes, entriesLeft⟩
  have inside : InTable pool.nalloc := by
    constructor
    · omega
    · exact entriesLeft
  rw [bufSize] at totalEq
  rw [maxAlloc] at entriesLeft
  have sizeEq : int size = size := int_of_small (by omega) (by omega)
  have top : int (pool.n + size) = pool.n + size :=
    int_of_small (by omega) (by omega)
  have last : int (pool.nalloc + 1) = pool.nalloc + 1 :=
    int_of_small (by omega) (by omega)
  have bytesRange : 0 ≤ pool.n + size ∧ pool.n + size ≤ bufSize := by
    rw [bufSize]
    omega
  have entriesRange : 0 ≤ pool.nalloc + 1 ∧ pool.nalloc + 1 ≤ maxAlloc := by
    rw [maxAlloc]
    omega
  rw [poolAlloc_run inside, poolAllocGuarded, bind_of_ok (get_run pool),
    bind_of_ok (writeAlloc_run inside _ _),
    bind_of_ok (writeAllocSize_run inside _ _), sizeEq, top, last, setN,
    setNalloc, if_pos bytesRange, if_pos entriesRange]
  rfl

theorem reclaimLoopGuarded_stops
    (fuel : Nat) {pool : Pool} {entry : Entry} {entries : List Entry}
    (represents : Represents pool (entry :: entries))
    (alive : entry.live = true) :
    reclaimLoopGuarded (fuel + 1) pool = .ok () pool := by
  have stops : ¬ ((height entries : Int) = -1 ∧ pool.nalloc ≥ 0) :=
    fun both => height_ne_dead entries both.1
  rcases represents.top with ⟨top, inside, atAlloc⟩
  rw [alive, if_pos rfl] at atAlloc
  rw [reclaimLoopGuarded, bind_of_ok (get_run pool), top,
    bind_of_ok (readAllocChecked_run inside pool), atAlloc, if_neg stops]
  rfl

/-- Taking an entry off leaves `n` and `nalloc` in their ranges. -/
theorem reclaimLoopGuarded_turn
    (fuel : Nat) {pool : Pool} {entry : Entry} {entries : List Entry}
    (represents : Represents pool (entry :: entries))
    (dead : entry.live = false) :
    reclaimLoopGuarded (fuel + 1) pool =
      reclaimLoopGuarded fuel
        { pool with
          n := int (pool.n - pool.allocSize entries.length)
          nalloc := int (pool.nalloc - 1) } := by
  have nallocEq := represents.nalloc_eq
  have more : (-1 : Int) = -1 ∧ pool.nalloc ≥ 0 := by omega
  have under := represents.under
  have bytes : int (pool.n - pool.allocSize entries.length) = _ := under.n_eq
  have number : int (pool.nalloc - 1) = entries.length := under.nalloc_eq
  have bytesFit := under.bytesFit
  have entriesFit := under.entriesFit
  have bytesRange :
      0 ≤ int (pool.n - pool.allocSize entries.length) ∧
        int (pool.n - pool.allocSize entries.length) ≤ bufSize := by
    omega
  have numberRange :
      0 ≤ int (pool.nalloc - 1) ∧ int (pool.nalloc - 1) ≤ maxAlloc := by
    omega
  rcases represents.top with ⟨top, inside, atAlloc⟩
  rw [dead, if_neg Bool.false_ne_true] at atAlloc
  have reads : readAllocChecked (pool.nalloc - 1) pool = .ok (-1) pool := by
    rw [top, readAllocChecked_run inside, atAlloc]
  rw [reclaimLoopGuarded, bind_of_ok (get_run pool), bind_of_ok reads,
    if_pos more, bind_of_ok represents.readAllocSize_top, setN, setNalloc,
    if_pos bytesRange, if_pos numberRange]
  rfl

/-- The guards of the loop pass as long as an entry stays. -/
theorem reclaimLoopGuarded_eq
    (fuel : Nat) {pool : Pool} {entries : List Entry}
    (represents : Represents pool entries)
    (enough : entries.length < fuel) (stays : trim entries ≠ []) :
    reclaimLoopGuarded fuel pool = reclaimLoop fuel pool := by
  rcases Nat.exists_eq_succ_of_ne_zero (by omega : fuel ≠ 0) with
    ⟨fuel, rfl⟩
  induction entries generalizing fuel pool with
  | nil => exact absurd rfl stays
  | cons entry entries induction =>
      rw [List.length_cons] at enough
      cases alive : entry.live with
      | true =>
          have trimmed := trimmed_of_live alive entries
          rw [reclaimLoopGuarded_stops fuel represents alive,
            reclaimLoop_stops fuel represents trimmed]
      | false =>
          rcases Nat.exists_eq_succ_of_ne_zero (by omega : fuel ≠ 0) with
            ⟨fuel, rfl⟩
          rw [trim, alive] at stays
          rw [reclaimLoopGuarded_turn _ represents alive,
            reclaimLoop_turn _ represents alive]
          exact induction represents.under stays fuel (by omega)

/-- The guards of `pool_free` pass where an entry stays. -/
theorem poolFreeGuarded_eq
    {pool : Pool} {entries : List Entry}
    (represents : Represents pool entries) (ptr : BitVec 64)
    (stays : giveBack (freeOffset pool ptr) entries ≠ []) :
    poolFreeGuarded ptr pool = poolFree ptr pool := by
  have enough := represents.length_mark_lt (freeOffset pool ptr)
  rcases markLoop_represents represents (freeOffset pool ptr) with
    ⟨alloc, runs, marked⟩
  rw [poolFreeGuarded, poolFree, bind_of_ok (get_run pool),
    bind_of_ok (get_run pool), ← freeOffset, bind_of_ok runs,
    bind_of_ok runs]
  exact reclaimLoopGuarded_eq _ marked enough stays

/-! ## Calls on a known stack -/

section Calls

variable {buffer : Buffer} {pool : Pool} {entries : List Entry}

theorem fits_of_entries
    (inBuffer : InBuffer buffer pool entries) {size : Nat}
    (bytes : height entries + size ≤ 100000)
    (number : entries.length < 1000) : Fits pool size := by
  have nallocEq := inBuffer.represents.nalloc_eq
  have nEq := inBuffer.represents.n_eq
  have totalEq := inBuffer.represents.total_eq
  rw [bufSize] at totalEq
  rw [Fits, maxAlloc]
  omega

/-- A `malloc` for which there is room. -/
theorem malloc_keeps
    (inBuffer : InBuffer buffer pool entries) {sz : BitVec 64}
    (bytes : height entries + sz.toNat ≤ 100000)
    (number : entries.length < 1000) :
    ∃ rv after,
      HeapCall.perform (.malloc sz) pool = .ok rv after ∧
        rv.toNat = buffer.address.toNat + height entries ∧
        InBuffer buffer after (push sz.toNat entries) ∧
        KeepsLimits pool (.malloc sz) := by
  have fits := fits_of_entries inBuffer bytes number
  rcases inBuffer.request fits with ⟨rv, after, runs, rvEq, afterIn⟩
  have guarded := poolAllocGuarded_eq inBuffer.represents fits
  exact
    ⟨rv, after, runs, rvEq, afterIn, rv, after, runs, guarded.trans runs⟩

/-- A `free` after which an entry stays. -/
theorem free_keeps
    (inBuffer : InBuffer buffer pool entries) {ptr : BitVec 64}
    {kept : List Entry}
    (given : giveBack (freeOffset pool ptr) entries = kept)
    (stays : kept ≠ []) :
    ∃ after,
      HeapCall.perform (.free ptr) pool = .ok 0 after ∧
        InBuffer buffer after kept ∧ KeepsLimits pool (.free ptr) := by
  rcases inBuffer.release ptr with ⟨after, releases, afterIn⟩
  have notEmpty : giveBack (freeOffset pool ptr) entries ≠ [] := by
    rw [given]
    exact stays
  have guarded := poolFreeGuarded_eq inBuffer.represents ptr notEmpty
  have returns : HeapCall.perform (.free ptr) pool = .ok 0 after := by
    rw [HeapCall.perform, MallocPool.free, bind_of_ok releases]
    rfl
  have guardedReturns : performGuarded (.free ptr) pool = .ok 0 after := by
    rw [performGuarded, bind_of_ok (guarded.trans releases)]
    rfl
  rw [given] at afterIn
  exact ⟨after, returns, afterIn, 0, after, returns, guardedReturns⟩

/-- A `realloc` for which there is room. -/
theorem realloc_keeps
    (inBuffer : InBuffer buffer pool entries) {ptr sz : BitVec 64}
    {kept : List Entry}
    (given : giveBack (freeOffset pool ptr) entries = kept)
    (stays : kept ≠ []) (bytes : height kept + sz.toNat ≤ 100000)
    (number : kept.length < 1000) :
    ∃ rv after,
      HeapCall.perform (.realloc ptr sz) pool = .ok rv after ∧
        rv.toNat = buffer.address.toNat + height kept ∧
        InBuffer buffer after (push sz.toNat kept) ∧
        KeepsLimits pool (.realloc ptr sz) := by
  rcases inBuffer.release ptr with ⟨middle, releases, middleIn⟩
  have notEmpty : giveBack (freeOffset pool ptr) entries ≠ [] := by
    rw [given]
    exact stays
  have guardedFree := poolFreeGuarded_eq inBuffer.represents ptr notEmpty
  rw [given] at middleIn
  have fits := fits_of_entries middleIn bytes number
  rcases middleIn.request fits with ⟨rv, after, runs, rvEq, afterIn⟩
  have guardedAlloc := poolAllocGuarded_eq middleIn.represents fits
  have returns : HeapCall.perform (.realloc ptr sz) pool = .ok rv after := by
    rw [HeapCall.perform, realloc, bind_of_ok releases]
    exact runs
  have guardedReturns :
      performGuarded (.realloc ptr sz) pool = .ok rv after := by
    rw [performGuarded, bind_of_ok (guardedFree.trans releases)]
    exact guardedAlloc.trans runs
  exact
    ⟨rv, after, returns, rvEq, afterIn, rv, after, returns, guardedReturns⟩

end Calls

end NopOS.Heap.GuardedPool
