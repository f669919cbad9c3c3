import NopOS.Heap.MallocPool
import NopOS.Lib.BlockStack

/-!
# The pool as a stack of blocks

The tables of the pool represent a stack of entries: `alloc` holds the offset
of a live entry and `-1` for a dead one, `alloc_size` the size.  `pool_alloc`
pushes an entry, and `pool_free` gives entries back.
-/

namespace NopOS.Heap.PoolRefinement

open NopOS.Lib.Blocks
open NopOS.Lib.BlockStack
open NopOS.Lib.StatefulProgram
open NopOS.Heap.MallocPool

/-- The tables hold the entries, the top one at the last index. -/
def Holds (alloc allocSize : Int → Int) : List Entry → Prop
  | [] => True
  | entry :: entries =>
      alloc entries.length =
          (if entry.live then (height entries : Int) else -1) ∧
        allocSize entries.length = entry.size ∧
        Holds alloc allocSize entries

/-- The pool is that of a stack within its capacity. -/
structure Represents (pool : Pool) (entries : List Entry) : Prop where
  nalloc_eq : pool.nalloc = entries.length
  n_eq : pool.n = height entries
  total_eq : pool.total = bufSize
  table : Holds pool.alloc pool.allocSize entries
  entriesFit : (entries.length : Int) ≤ maxAlloc
  bytesFit : (height entries : Int) ≤ bufSize

/-- The bytes of the buffer do not matter. -/
theorem Represents.set_buf
    {pool : Pool} {entries : List Entry}
    (represents : Represents pool entries) (buf : Int → BitVec 8) :
    Represents { pool with buf := buf } entries where
  nalloc_eq := represents.nalloc_eq
  n_eq := represents.n_eq
  total_eq := represents.total_eq
  table := represents.table
  entriesFit := represents.entriesFit
  bytesFit := represents.bytesFit

/-! ## The tables -/

theorem Holds.congr
    {alloc allocSize otherAlloc otherSize : Int → Int}
    {entries : List Entry}
    (holds : Holds alloc allocSize entries)
    (sameAlloc :
      ∀ i : Int, 0 ≤ i → i < entries.length → otherAlloc i = alloc i)
    (sameSize :
      ∀ i : Int, 0 ≤ i → i < entries.length → otherSize i = allocSize i) :
    Holds otherAlloc otherSize entries := by
  induction entries with
  | nil => exact trivial
  | cons entry entries induction =>
      rcases holds with ⟨atAlloc, atSize, under⟩
      simp only [List.length_cons, Nat.cast_add, Nat.cast_one]
        at sameAlloc sameSize
      refine ⟨?_, ?_, induction under ?_ ?_⟩
      · rw [sameAlloc _ (by omega) (by omega), atAlloc]
      · rw [sameSize _ (by omega) (by omega), atSize]
      · exact fun i lower upper => sameAlloc i lower (by omega)
      · exact fun i lower upper => sameSize i lower (by omega)

/-- The offsets in the table are sums of the sizes before them. -/
theorem Holds.height_eq
    {alloc allocSize : Int → Int} {entries : List Entry}
    (holds : Holds alloc allocSize entries) :
    (height entries : Int) =
      ∑ j ∈ Finset.range entries.length, allocSize j := by
  induction entries with
  | nil => rfl
  | cons entry entries induction =>
      rcases holds with ⟨-, atSize, under⟩
      rw [List.length_cons, Finset.sum_range_succ, ← induction under, atSize]
      rfl

theorem Holds.alloc_eq
    {alloc allocSize : Int → Int} {entries : List Entry}
    (holds : Holds alloc allocSize entries)
    {i : Nat} (inside : i < entries.length) :
    alloc i = -1 ∨ alloc i = ∑ j ∈ Finset.range i, allocSize j := by
  induction entries with
  | nil => simp at inside
  | cons entry entries induction =>
      rcases holds with ⟨atAlloc, -, under⟩
      rcases Nat.lt_succ_iff_lt_or_eq.1 inside with lower | rfl
      · exact induction under lower
      · rw [atAlloc, ← under.height_eq]
        cases entry.live with
        | true => exact Or.inr rfl
        | false => exact Or.inl rfl

/-- The entry on top of the stack is the last one of the table. -/
theorem Represents.top
    {pool : Pool} {entry : Entry} {entries : List Entry}
    (represents : Represents pool (entry :: entries)) :
    pool.nalloc - 1 = entries.length ∧ InTable (entries.length : Int) ∧
      pool.alloc entries.length =
        if entry.live then (height entries : Int) else -1 := by
  have nallocEq := represents.nalloc_eq
  have entriesFit := represents.entriesFit
  rw [List.length_cons, Nat.cast_add, Nat.cast_one] at nallocEq entriesFit
  refine ⟨?_, ?_, represents.table.1⟩
  · omega
  · constructor
    · omega
    · omega

theorem Represents.readAllocSize_top
    {pool : Pool} {entry : Entry} {entries : List Entry}
    (represents : Represents pool (entry :: entries)) :
    readAllocSize (pool.nalloc - 1) pool =
      .ok (pool.allocSize entries.length) pool := by
  rcases represents.top with ⟨top, inside, -⟩
  rw [top, readAllocSize_run inside]

/-- The offset of a live entry is not taken for a dead one. -/
theorem height_ne_dead (entries : List Entry) :
    (height entries : Int) ≠ -1 := by
  omega

/-! ## Allocation -/

/-- The initial pool has no entry. -/
theorem represents_initial (bufAddress : BitVec 64) :
    Represents (Pool.initial bufAddress) [] where
  nalloc_eq := rfl
  n_eq := rfl
  total_eq := rfl
  table := trivial
  entriesFit := by decide
  bytesFit := by decide

/-- `pool_alloc` pushes an entry. -/
theorem poolAlloc_spec
    {pool : Pool} {entries : List Entry} {size : Nat}
    (represents : Represents pool entries)
    (entriesLeft : (entries.length : Int) < maxAlloc)
    (bytesLeft : (height entries : Int) + size ≤ bufSize) :
    ∃ after,
      poolAlloc size pool =
          .ok (BitVec.ofInt 64 (pool.p.toNat + height entries)) after ∧
        Represents after (push size entries) ∧
        after.p = pool.p ∧ after.buf = pool.buf := by
  have nallocEq := represents.nalloc_eq
  have nEq := represents.n_eq
  have inside : InTable pool.nalloc := by
    simp only [InTable]
    omega
  simp only [maxAlloc, bufSize] at entriesLeft bytesLeft
  rw [poolAlloc_run inside, nEq]
  refine ⟨_, rfl, ?_, rfl, rfl⟩
  refine
    { nalloc_eq := ?_
      n_eq := ?_
      total_eq := represents.total_eq
      table := ?_
      entriesFit := ?_
      bytesFit := ?_ }
  · simp only [push, List.length_cons]
    rw [int_of_small (by omega) (by omega), nallocEq]
    rfl
  · simp only [height_push]
    rw [int_of_small (by omega) (by omega)]
    push_cast
    rfl
  · refine ⟨?_, ?_, represents.table.congr ?_ ?_⟩
    · rw [← nallocEq]
      exact Function.update_self _ _ _
    · rw [← nallocEq]
      exact Function.update_self _ _ _
    · intro i lower upper
      exact Function.update_of_ne (by omega) _ _
    · intro i lower upper
      exact Function.update_of_ne (by omega) _ _
  · simp only [push, List.length_cons, maxAlloc]
    omega
  · simp only [height_push, bufSize]
    omega

/-! ## Release -/

/-- State after entry `i` was compared with the offset. -/
def compared (offset : Int) (i : Nat) (pool : Pool) : Pool :=
  { pool with
    alloc :=
      Function.update pool.alloc i
        (if pool.alloc i = offset then -1 else pool.alloc i) }

theorem markLoop_run_succ
    (offset : Int) {i : Nat} (inside : InTable i) (pool : Pool) :
    markLoop offset (i + 1) pool =
      markLoop offset i (compared offset i pool) := by
  rw [markLoop, bind_of_ok (readAlloc_run inside pool), compared]
  by_cases found : pool.alloc i = offset
  · rw [if_pos found, if_pos found, bind_of_ok (writeAlloc_run inside _ _)]
  · rw [if_neg found, if_neg found, Function.update_eq_self]

/-- A pass over the entries marks those which start at the offset. -/
theorem markLoop_spec
    (offset : Int) (pool : Pool) {entries : List Entry}
    (holds : Holds pool.alloc pool.allocSize entries)
    (fits : (entries.length : Int) ≤ maxAlloc) :
    ∃ alloc,
      markLoop offset entries.length pool =
          .ok () { pool with alloc := alloc } ∧
        Holds alloc pool.allocSize (mark offset entries) ∧
        ∀ i : Int, entries.length ≤ i → alloc i = pool.alloc i := by
  induction entries generalizing pool with
  | nil => exact ⟨pool.alloc, rfl, trivial, fun _ _ => rfl⟩
  | cons entry entries induction =>
      rcases holds with ⟨atAlloc, atSize, under⟩
      simp only [List.length_cons, Nat.cast_add, Nat.cast_one] at fits
      have inside : InTable (entries.length : Int) := by
        simp only [InTable]
        omega
      have underCompared :
          Holds (compared offset entries.length pool).alloc
            (compared offset entries.length pool).allocSize entries :=
        under.congr
          (fun i _ upper => Function.update_of_ne (by omega) _ _)
          (fun _ _ _ => rfl)
      rcases induction _ underCompared (by omega) with
        ⟨alloc, runs, marked, above⟩
      refine ⟨alloc, ?_, ⟨?_, ?_, marked⟩, ?_⟩
      · rw [List.length_cons, markLoop_run_succ offset inside, runs]
        rfl
      · rw [length_mark, height_mark, above _ (le_refl _)]
        simp only [compared, Function.update_self, atAlloc]
        cases alive : entry.live with
        | true =>
            simp only [if_true]
            split <;> simp
        | false =>
            simp only [Bool.false_eq_true, if_false]
            split <;> split <;> simp_all
      · rw [length_mark, atSize]
        split <;> rfl
      · intro i lower
        simp only [List.length_cons, Nat.cast_add, Nat.cast_one] at lower
        rw [above i (by omega)]
        exact Function.update_of_ne (by omega) _ _

/-- The pool without its top entry. -/
theorem Represents.under
    {pool : Pool} {entry : Entry} {entries : List Entry}
    (represents : Represents pool (entry :: entries)) :
    Represents
      { pool with
        n := int (pool.n - pool.allocSize entries.length)
        nalloc := int (pool.nalloc - 1) } entries := by
  have nallocEq := represents.nalloc_eq
  have nEq := represents.n_eq
  have entriesFit := represents.entriesFit
  have bytesFit := represents.bytesFit
  rcases represents.table with ⟨-, atSize, under⟩
  simp only [List.length_cons, Nat.cast_add, Nat.cast_one, maxAlloc]
    at nallocEq entriesFit
  simp only [height, Nat.cast_add, bufSize] at nEq bytesFit
  refine
    { nalloc_eq := ?_
      n_eq := ?_
      total_eq := represents.total_eq
      table := under
      entriesFit := ?_
      bytesFit := ?_ }
  · change int (pool.nalloc - 1) = _
    rw [int_of_small (by omega) (by omega)]
    omega
  · change int (pool.n - pool.allocSize entries.length) = _
    rw [atSize, int_of_small (by omega) (by omega)]
    omega
  · simp only [maxAlloc]
    omega
  · simp only [bufSize]
    omega

/-- With a live entry on top, or none, the loop ends at once. -/
theorem reclaimLoop_stops
    (fuel : Nat) {pool : Pool} {entries : List Entry}
    (represents : Represents pool entries) (trimmed : Trimmed entries) :
    reclaimLoop (fuel + 1) pool = .ok () pool := by
  cases entries with
  | nil =>
      have nallocEq := represents.nalloc_eq
      have empty : pool.nalloc - 1 = -1 := by
        rw [nallocEq]
        rfl
      have stops : ¬ (pool.total = -1 ∧ pool.nalloc ≥ 0) := by
        rintro ⟨minusOne, -⟩
        rw [represents.total_eq] at minusOne
        exact absurd minusOne (by decide)
      rw [reclaimLoop, bind_of_ok (get_run pool), empty,
        bind_of_ok (readAlloc_run_below pool), if_neg stops]
      rfl
  | cons entry entries =>
      rcases represents.top with ⟨top, inside, atAlloc⟩
      rw [trimmed.live_top, if_pos rfl] at atAlloc
      have stops : ¬ ((height entries : Int) = -1 ∧ pool.nalloc ≥ 0) :=
        fun both => height_ne_dead entries both.1
      rw [reclaimLoop, bind_of_ok (get_run pool), top,
        bind_of_ok (readAlloc_run inside pool), atAlloc, if_neg stops]
      rfl

/-- With a dead entry on top the loop takes it off and goes on. -/
theorem reclaimLoop_turn
    (fuel : Nat) {pool : Pool} {entry : Entry} {entries : List Entry}
    (represents : Represents pool (entry :: entries))
    (dead : entry.live = false) :
    reclaimLoop (fuel + 1) pool =
      reclaimLoop fuel
        { pool with
          n := int (pool.n - pool.allocSize entries.length)
          nalloc := int (pool.nalloc - 1) } := by
  have nallocEq := represents.nalloc_eq
  have more : (-1 : Int) = -1 ∧ pool.nalloc ≥ 0 := by omega
  rcases represents.top with ⟨top, inside, atAlloc⟩
  rw [dead, if_neg Bool.false_ne_true] at atAlloc
  have reads : readAlloc (pool.nalloc - 1) pool = .ok (-1) pool := by
    rw [top, readAlloc_run inside, atAlloc]
  rw [reclaimLoop, bind_of_ok (get_run pool), bind_of_ok reads, if_pos more,
    bind_of_ok represents.readAllocSize_top]
  rfl

/-- The loop takes the dead entries off and always stops. -/
theorem reclaimLoop_spec
    (fuel : Nat) {pool : Pool} {entries : List Entry}
    (represents : Represents pool entries)
    (enough : entries.length < fuel) :
    ∃ after,
      reclaimLoop fuel pool = .ok () after ∧
        Represents after (trim entries) ∧
        after.p = pool.p ∧ after.buf = pool.buf := by
  rcases Nat.exists_eq_succ_of_ne_zero (by omega : fuel ≠ 0) with
    ⟨fuel, rfl⟩
  induction entries generalizing fuel pool with
  | nil =>
      exact
        ⟨pool, reclaimLoop_stops fuel represents trimmed_nil, represents,
          rfl, rfl⟩
  | cons entry entries induction =>
      rw [List.length_cons] at enough
      rw [trim]
      cases alive : entry.live with
      | true =>
          have trimmed := trimmed_of_live alive entries
          rw [if_pos rfl]
          exact
            ⟨pool, reclaimLoop_stops fuel represents trimmed, represents,
              rfl, rfl⟩
      | false =>
          rcases Nat.exists_eq_succ_of_ne_zero (by omega : fuel ≠ 0) with
            ⟨fuel, rfl⟩
          rw [reclaimLoop_turn _ represents alive]
          exact induction represents.under fuel (by omega)

/-- The offset which `pool_free` compares with. -/
def freeOffset (pool : Pool) (ptr : BitVec 64) : Int :=
  int (ptr.toNat - pool.p.toNat)

/-- The first loop of `pool_free` marks the entries of an offset. -/
theorem markLoop_represents
    {pool : Pool} {entries : List Entry}
    (represents : Represents pool entries) (offset : Int) :
    ∃ alloc,
      markLoop offset pool.nalloc.toNat pool =
          .ok () { pool with alloc := alloc } ∧
        Represents { pool with alloc := alloc } (mark offset entries) := by
  have nallocEq := represents.nalloc_eq
  have passes : pool.nalloc.toNat = entries.length := by omega
  rcases
      markLoop_spec offset pool represents.table represents.entriesFit with
    ⟨alloc, runs, marked, -⟩
  rw [passes]
  refine
    ⟨alloc, runs,
      { nalloc_eq := by rw [length_mark, ← nallocEq]
        n_eq := by rw [height_mark, ← represents.n_eq]
        total_eq := represents.total_eq
        table := marked
        entriesFit := ?_
        bytesFit := ?_ }⟩
  · rw [length_mark]
    exact represents.entriesFit
  · rw [height_mark]
    exact represents.bytesFit

/-- The fuel of the second loop suffices for the marked entries. -/
theorem Represents.length_mark_lt
    {pool : Pool} {entries : List Entry}
    (represents : Represents pool entries) (offset : Int) :
    (mark offset entries).length < (pool.nalloc + 2).toNat := by
  have nallocEq := represents.nalloc_eq
  rw [length_mark]
  omega

/-- `pool_free` gives entries back. -/
theorem poolFree_spec
    {pool : Pool} {entries : List Entry}
    (represents : Represents pool entries) (ptr : BitVec 64) :
    ∃ after,
      poolFree ptr pool = .ok () after ∧
        Represents after (giveBack (freeOffset pool ptr) entries) ∧
        after.p = pool.p ∧ after.buf = pool.buf := by
  have enough := represents.length_mark_lt (freeOffset pool ptr)
  rcases markLoop_represents represents (freeOffset pool ptr) with
    ⟨alloc, runs, marked⟩
  rcases reclaimLoop_spec _ marked enough with
    ⟨after, reclaims, trimmed, sameP, sameBuf⟩
  refine ⟨after, ?_, trimmed, sameP, sameBuf⟩
  rw [poolFree, bind_of_ok (get_run pool), ← freeOffset, bind_of_ok runs]
  exact reclaims

/-- An offset before the buffer is that of no entry. -/
theorem markLoop_same
    {offset : Int} (outside : offset < 0) (pool : Pool)
    {entries : List Entry}
    (holds : Holds pool.alloc pool.allocSize entries)
    (fits : (entries.length : Int) ≤ maxAlloc) :
    markLoop offset entries.length pool = .ok () pool := by
  induction entries with
  | nil => rfl
  | cons entry entries induction =>
      rcases holds with ⟨atAlloc, -, under⟩
      simp only [List.length_cons, Nat.cast_add, Nat.cast_one] at fits
      have inside : InTable (entries.length : Int) := by
        simp only [InTable]
        omega
      have same : compared offset entries.length pool = pool := by
        rw [compared, Function.update_eq_self_iff.2]
        by_cases found : pool.alloc entries.length = offset
        · rw [if_pos found]
          cases alive : entry.live with
          | true =>
              rw [alive, if_pos rfl] at atAlloc
              omega
          | false =>
              rw [alive, if_neg Bool.false_ne_true] at atAlloc
              exact atAlloc.symm
        · rw [if_neg found]
      rw [List.length_cons, markLoop_run_succ offset inside, same]
      exact induction under (by omega)

/-- Releasing what lies before the buffer does nothing. -/
theorem poolFree_outside
    {pool : Pool} {entries : List Entry} {ptr : BitVec 64}
    (represents : Represents pool entries) (trimmed : Trimmed entries)
    (outside : freeOffset pool ptr < 0) :
    poolFree ptr pool = .ok () pool := by
  have nallocEq := represents.nalloc_eq
  have passes : pool.nalloc.toNat = entries.length := by omega
  have turns : (pool.nalloc + 2).toNat = entries.length + 1 + 1 := by omega
  rw [poolFree, bind_of_ok (get_run pool), ← freeOffset, passes, turns,
    bind_of_ok
      (markLoop_same outside pool represents.table represents.entriesFit)]
  exact reclaimLoop_stops _ represents trimmed

end NopOS.Heap.PoolRefinement
