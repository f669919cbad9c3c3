import NopOS.Heap.HeapRuns

/-!
# The limits of the pool

The pool has `MAX_ALLOC` table entries and the bytes of `buf`, and neither is
looked at by `pool_alloc`; `pool_free` looks at the entry below the top before
it tests whether there is one.  A call keeps to the tables and to the buffer
exactly when, in the state before it, the request fits and a release leaves
an entry.

The checked functions are those of the source with a fault for every index
outside the tables.
-/

namespace NopOS.Heap.PoolBounds

open NopOS.Lib.BlockStack
open NopOS.Lib.StatefulProgram
open NopOS.Lib.LabelledRun
open NopOS.Heap.MallocPool
open NopOS.Heap.PoolRefinement
open NopOS.Heap.HeapRuns

/-! ## Checked functions -/

/-- `alloc[i]` without the one access in front of the table. -/
def readAllocChecked (i : Int) : Exec Int := do
  let pool ← get
  if InTable i then return pool.alloc i
  else throw (.index i)

/-- `reclaimLoop` with every index checked. -/
def reclaimLoopChecked : Nat → Exec Unit
  | 0 => throw .outOfFuel
  | fuel + 1 => do
      let pool ← get
      if (← readAllocChecked (pool.nalloc - 1)) = -1 ∧ pool.nalloc ≥ 0 then
        let size ← readAllocSize (pool.nalloc - 1)
        modify fun pool => { pool with n := int (pool.n - size) }
        modify fun pool => { pool with nalloc := int (pool.nalloc - 1) }
        reclaimLoopChecked fuel

/-- `poolFree` with every index checked; `markLoop` never asks for `-1`. -/
def poolFreeChecked (free : BitVec 64) : Exec Unit := do
  let pool ← get
  let offset := int (free.toNat - pool.p.toNat)
  markLoop offset pool.nalloc.toNat
  reclaimLoopChecked (pool.nalloc + 2).toNat

/-- A call of the library without accesses in front of the table. -/
def performChecked : HeapCall → Exec (BitVec 64)
  | .malloc sz => malloc sz
  | .calloc nmemb size => calloc nmemb size
  | .realloc ptr sz => do
      poolFreeChecked ptr
      poolAlloc (int sz.toNat)
  | .free ptr => do
      poolFreeChecked ptr
      return 0

/-! ## What a call is to keep to -/

/-- The call stays in the tables, what it returns lies in the buffer, and a
request which cannot be met is refused. -/
def WithinBounds (buffer : Buffer) (pool : Pool) (call : HeapCall) : Prop :=
  ∃ rv after,
    performChecked call pool = .ok rv after ∧
      call.perform pool = .ok rv after ∧
        ∀ size, call.requesting = some size →
          (rv ≠ 0 →
              buffer.address.toNat ≤ rv.toNat ∧
                rv.toNat + size ≤ buffer.address.toNat + 100000) ∧
            (¬ Fits (call.poolReleased pool) size → rv = 0 ∧ after = pool)

/-- Entry `i` is live and stays so when an offset is released. -/
def Kept (pool : Pool) (offset i : Int) : Prop :=
  pool.alloc i ≠ -1 ∧ pool.alloc i ≠ offset

/-- The entry which is the last one after an offset was released. -/
structure Top (pool : Pool) (offset i : Int) : Prop where
  inside : 0 ≤ i ∧ i < pool.nalloc
  kept : Kept pool offset i
  last : ∀ j, i < j → j < pool.nalloc → ¬ Kept pool offset j

/-- A request finds its bytes and an entry, and a release leaves an entry. -/
def WithinLimits (pool : Pool) (call : HeapCall) : Prop :=
  match call.releasing with
  | none => ∀ size, call.requesting = some size → Fits pool size
  | some ptr =>
      ∃ i, Top pool (freeOffset pool ptr) i ∧
        ∀ size, call.requesting = some size →
          pool.alloc i + pool.allocSize i + size ≤ pool.total ∧
            i + 1 < maxAlloc

/-! ## The top of the table -/

/-- The entry on top is kept if it is live and not the one that is freed. -/
theorem giveBack_cons (offset : Int) (entry : Entry) (entries : List Entry) :
    giveBack offset (entry :: entries) =
      if entry.live ∧ (height entries : Int) ≠ offset then
        entry :: mark offset entries
      else giveBack offset entries := by
  rw [giveBack, mark]
  by_cases released : (height entries : Int) = offset
  · have notKept : ¬ (entry.live ∧ (height entries : Int) ≠ offset) := by
      rintro ⟨-, different⟩
      exact different released
    rw [if_pos released, if_neg notKept]
    rfl
  · rw [if_neg released]
    cases alive : entry.live with
    | true =>
        rw [if_pos ⟨rfl, released⟩, trim, alive]
        rfl
    | false =>
        rw [if_neg (by simp), trim, alive]
        rfl

theorem kept_iff
    {pool : Pool} {entry : Entry} {entries : List Entry} (offset : Int)
    (holds : Holds pool.alloc pool.allocSize (entry :: entries)) :
    Kept pool offset entries.length ↔
      entry.live ∧ (height entries : Int) ≠ offset := by
  rw [Kept, holds.1]
  cases entry.live with
  | true =>
      simp [height_ne_dead]
  | false => simp

/-- Nothing is kept if the stack becomes empty. -/
theorem not_kept_of_giveBack
    {pool : Pool} {entries : List Entry} {offset : Int}
    (holds : Holds pool.alloc pool.allocSize entries)
    (empty : giveBack offset entries = []) :
    ∀ i : Int, 0 ≤ i → i < entries.length → ¬ Kept pool offset i := by
  induction entries with
  | nil =>
      intro i lower upper
      exact absurd lower (by simpa using upper)
  | cons entry entries induction =>
      rw [giveBack_cons] at empty
      by_cases stays : entry.live ∧ (height entries : Int) ≠ offset
      · rw [if_pos stays] at empty
        cases empty
      · rw [if_neg stays] at empty
        intro i lower upper
        rw [List.length_cons, Nat.cast_add, Nat.cast_one] at upper
        by_cases last : i = entries.length
        · subst i
          rw [kept_iff offset holds]
          exact stays
        · exact induction holds.2.2 empty i lower (by omega)

/-- The entry on top of the stack is the one which the table gives. -/
theorem kept_of_giveBack
    {pool : Pool} {entries rest : List Entry} {entry : Entry} {offset : Int}
    (holds : Holds pool.alloc pool.allocSize entries)
    (stays : giveBack offset entries = entry :: rest) :
    rest.length < entries.length ∧
      Kept pool offset rest.length ∧
      (∀ j : Int, rest.length < j → j < entries.length →
        ¬ Kept pool offset j) ∧
      pool.alloc rest.length + pool.allocSize rest.length =
        height (entry :: rest) := by
  induction entries with
  | nil => cases stays
  | cons first entries induction =>
      have keptFirst := kept_iff offset holds
      rw [giveBack_cons] at stays
      by_cases onTop : first.live ∧ (height entries : Int) ≠ offset
      · rw [if_pos onTop] at stays
        cases stays
        rcases holds with ⟨atAlloc, atSize, -⟩
        rw [length_mark]
        refine ⟨Nat.lt_succ_self _, keptFirst.2 onTop, ?_, ?_⟩
        · intro j lower upper
          rw [List.length_cons, Nat.cast_add, Nat.cast_one] at upper
          omega
        · rw [atAlloc, atSize, if_pos onTop.1, height, height_mark,
            Nat.cast_add]
      · rw [if_neg onTop] at stays
        rcases induction holds.2.2 stays with ⟨shorter, kept, last, top⟩
        refine ⟨Nat.lt_succ_of_lt shorter, kept, ?_, top⟩
        intro j lower upper
        rw [List.length_cons, Nat.cast_add, Nat.cast_one] at upper
        by_cases atFirst : j = entries.length
        · subst j
          rw [keptFirst]
          exact onTop
        · exact last j lower (by omega)

/-- There is one top at most. -/
theorem Top.unique {pool : Pool} {offset i j : Int}
    (first : Top pool offset i) (second : Top pool offset j) : i = j := by
  rcases lt_trichotomy i j with below | same | above
  · exact absurd second.kept (first.last j below second.inside.2)
  · exact same
  · exact absurd first.kept (second.last i above first.inside.2)

/-! ## The checked release -/

theorem readAllocChecked_run
    {i : Int} (inside : InTable i) (pool : Pool) :
    readAllocChecked i pool = .ok (pool.alloc i) pool := by
  rw [readAllocChecked, bind_of_ok (get_run pool), if_pos inside]
  rfl

/-- The checked read stops at `alloc[-1]`. -/
theorem readAllocChecked_below (pool : Pool) :
    readAllocChecked (-1) pool = .error (.index (-1)) pool := by
  rw [readAllocChecked, bind_of_ok (get_run pool), if_neg (by decide)]
  rfl

/-- While there is an entry, the checked loop goes like the loop. -/
theorem reclaimLoopChecked_stops
    (fuel : Nat) {pool : Pool} {entry : Entry} {entries : List Entry}
    (represents : Represents pool (entry :: entries))
    (alive : entry.live = true) :
    reclaimLoopChecked (fuel + 1) pool = .ok () pool := by
  have stops : ¬ ((height entries : Int) = -1 ∧ pool.nalloc ≥ 0) :=
    fun both => height_ne_dead entries both.1
  rcases represents.top with ⟨top, inside, atAlloc⟩
  rw [alive, if_pos rfl] at atAlloc
  rw [reclaimLoopChecked, bind_of_ok (get_run pool), top,
    bind_of_ok (readAllocChecked_run inside pool), atAlloc, if_neg stops]
  rfl

theorem reclaimLoopChecked_turn
    (fuel : Nat) {pool : Pool} {entry : Entry} {entries : List Entry}
    (represents : Represents pool (entry :: entries))
    (dead : entry.live = false) :
    reclaimLoopChecked (fuel + 1) pool =
      reclaimLoopChecked fuel
        { pool with
          n := int (pool.n - pool.allocSize entries.length)
          nalloc := int (pool.nalloc - 1) } := by
  have nallocEq := represents.nalloc_eq
  have more : (-1 : Int) = -1 ∧ pool.nalloc ≥ 0 := by omega
  rcases represents.top with ⟨top, inside, atAlloc⟩
  rw [dead, if_neg Bool.false_ne_true] at atAlloc
  have reads : readAllocChecked (pool.nalloc - 1) pool = .ok (-1) pool := by
    rw [top, readAllocChecked_run inside, atAlloc]
  rw [reclaimLoopChecked, bind_of_ok (get_run pool), bind_of_ok reads,
    if_pos more, bind_of_ok represents.readAllocSize_top]
  rfl

/-- The loop stays in the table unless it empties it. -/
theorem reclaimLoopChecked_spec
    (fuel : Nat) {pool : Pool} {entries : List Entry}
    (represents : Represents pool entries)
    (enough : entries.length < fuel) :
    (trim entries ≠ [] →
        reclaimLoopChecked fuel pool = reclaimLoop fuel pool) ∧
      (trim entries = [] →
        ∃ after,
          reclaimLoopChecked fuel pool = .error (.index (-1)) after) := by
  rcases Nat.exists_eq_succ_of_ne_zero (by omega : fuel ≠ 0) with
    ⟨fuel, rfl⟩
  induction entries generalizing fuel pool with
  | nil =>
      have empty : pool.nalloc - 1 = -1 := by
        rw [represents.nalloc_eq]
        rfl
      constructor
      · intro notEmpty
        exact absurd rfl notEmpty
      · intro _
        refine ⟨pool, ?_⟩
        rw [reclaimLoopChecked, bind_of_ok (get_run pool), empty,
          bind_of_error (readAllocChecked_below pool)]
  | cons entry entries induction =>
      rw [List.length_cons] at enough
      rw [trim]
      cases alive : entry.live with
      | true =>
          have trimmed := trimmed_of_live alive entries
          rw [if_pos rfl, reclaimLoopChecked_stops fuel represents alive,
            reclaimLoop_stops fuel represents trimmed]
          constructor
          · intro _
            rfl
          · intro empty
            cases empty
      | false =>
          rcases Nat.exists_eq_succ_of_ne_zero (by omega : fuel ≠ 0) with
            ⟨fuel, rfl⟩
          rw [if_neg Bool.false_ne_true,
            reclaimLoopChecked_turn _ represents alive,
            reclaimLoop_turn _ represents alive]
          exact induction represents.under fuel (by omega)

/-- `pool_free` stays in the table as long as an entry is kept. -/
theorem poolFreeChecked_spec
    {pool : Pool} {entries : List Entry}
    (represents : Represents pool entries) (ptr : BitVec 64) :
    (giveBack (freeOffset pool ptr) entries ≠ [] →
        poolFreeChecked ptr pool = poolFree ptr pool) ∧
      (giveBack (freeOffset pool ptr) entries = [] →
        ∃ after,
          poolFreeChecked ptr pool = .error (.index (-1)) after) := by
  have enough := represents.length_mark_lt (freeOffset pool ptr)
  rcases markLoop_represents represents (freeOffset pool ptr) with
    ⟨alloc, runs, marked⟩
  rw [poolFreeChecked, poolFree, bind_of_ok (get_run pool),
    bind_of_ok (get_run pool), ← freeOffset, bind_of_ok runs,
    bind_of_ok runs]
  exact reclaimLoopChecked_spec _ marked enough

/-! ## Requests -/

/-- The pool of the program, with `buf` where the linker placed it. -/
structure InBuffer (buffer : Buffer) (pool : Pool) (entries : List Entry) :
    Prop where
  represents : Represents pool entries
  p_eq : pool.p = buffer.address

section Requests

variable {buffer : Buffer} {pool : Pool} {entries : List Entry}

/-- A request that fits keeps the pool in its buffer. -/
theorem InBuffer.request
    (inBuffer : InBuffer buffer pool entries) {size : Nat}
    (fits : Fits pool size) :
    ∃ rv after,
      poolAlloc (int size) pool = .ok rv after ∧
        rv.toNat = buffer.address.toNat + height entries ∧
        InBuffer buffer after (push size entries) := by
  rcases poolAlloc_of_fits inBuffer.represents inBuffer.p_eq fits with
    ⟨rv, after, runs, rvEq, represents, sameP, -⟩
  exact ⟨rv, after, runs, rvEq, represents, sameP⟩

/-- A request which returned a range of the buffer did fit. -/
theorem InBuffer.fits_of_within
    (inBuffer : InBuffer buffer pool entries) {size : Nat} {sizeInt : Int}
    {rv : BitVec 64} {after : Pool}
    (returned : poolAlloc sizeInt pool = .ok rv after)
    (within :
      rv ≠ 0 → rv.toNat + size ≤ buffer.address.toNat + 100000) :
    Fits pool size := by
  have nEq := inBuffer.represents.n_eq
  have nallocEq := inBuffer.represents.nalloc_eq
  have totalEq := inBuffer.represents.total_eq
  have inside : InTable pool.nalloc := by
    by_contra outside
    rw [poolAlloc, bind_of_ok (get_run pool), writeAlloc,
      if_neg outside] at returned
    cases returned
  rw [poolAlloc_run inside] at returned
  cases returned
  have rvEq := toNat_rv inBuffer.represents inBuffer.p_eq
  rw [← nEq] at rvEq
  have notNull : BitVec.ofInt 64 (pool.p.toNat + pool.n) ≠ 0 := by
    intro null
    have positive := buffer.notNull
    rw [null] at rvEq
    have zero : (0 : BitVec 64).toNat = 0 := rfl
    omega
  have ends := within notNull
  rw [bufSize] at totalEq
  constructor
  · omega
  · exact inside.2

/-- The top which the table gives is the end of what is used. -/
theorem InBuffer.top
    (inBuffer : InBuffer buffer pool entries) (offset : Int)
    {after : Pool} (left : InBuffer buffer after (giveBack offset entries))
    (notEmpty : giveBack offset entries ≠ []) :
    ∃ i, Top pool offset i ∧
      ∀ size : Nat,
        pool.alloc i + pool.allocSize i + size ≤ pool.total ∧
            i + 1 < maxAlloc ↔
          Fits after size := by
  have nallocEq := inBuffer.represents.nalloc_eq
  have totalEq := inBuffer.represents.total_eq
  have leftN := left.represents.n_eq
  have leftNalloc := left.represents.nalloc_eq
  have leftTotal := left.represents.total_eq
  rcases List.exists_cons_of_ne_nil notEmpty with ⟨entry, rest, stays⟩
  rcases kept_of_giveBack inBuffer.represents.table stays with
    ⟨shorter, kept, last, ends⟩
  rw [stays] at leftN leftNalloc
  rw [List.length_cons, Nat.cast_add, Nat.cast_one] at leftNalloc
  refine ⟨rest.length, ⟨⟨?_, ?_⟩, kept, ?_⟩, ?_⟩
  · exact Int.natCast_nonneg _
  · omega
  · intro j lower upper
    exact last j lower (by omega)
  · intro size
    rw [Fits, ends, leftN, leftNalloc, leftTotal, totalEq]

/-- A release does so too. -/
theorem InBuffer.release
    (inBuffer : InBuffer buffer pool entries) (ptr : BitVec 64) :
    ∃ after,
      poolFree ptr pool = .ok () after ∧
        InBuffer buffer after (giveBack (freeOffset pool ptr) entries) := by
  rcases poolFree_spec inBuffer.represents ptr with
    ⟨after, runs, represents, sameP, -⟩
  exact ⟨after, runs, represents, sameP.trans inBuffer.p_eq⟩

/-- A release leaves an entry exactly if the table has a top without it. -/
theorem InBuffer.notEmpty_of_top
    (inBuffer : InBuffer buffer pool entries) {offset i : Int}
    (top : Top pool offset i) : giveBack offset entries ≠ [] := by
  intro empty
  have nallocEq := inBuffer.represents.nalloc_eq
  have inside := top.inside
  exact
    not_kept_of_giveBack inBuffer.represents.table empty i inside.1
      (by omega) top.kept

/-- The stack of the pool once the pointer has been given back. -/
theorem InBuffer.released
    (inBuffer : InBuffer buffer pool entries) (call : HeapCall) :
    InBuffer buffer (call.poolReleased pool)
      (call.entriesReleased pool entries) := by
  rcases represents_released inBuffer.represents call with
    ⟨represents, sameP⟩
  exact ⟨represents, sameP.trans inBuffer.p_eq⟩

end Requests

/-! ## One call -/

section OneCall

variable
    {buffer : Buffer} {pool : Pool} {entries : List Entry} {call : HeapCall}

/-- What a call gives back is not all that is live. -/
def LeavesEntry (pool : Pool) (entries : List Entry) (call : HeapCall) :
    Prop :=
  ∀ ptr, call.releasing = some ptr →
    giveBack (freeOffset pool ptr) entries ≠ []

/-- A call which leaves an entry stays in the tables. -/
theorem performChecked_eq
    (represents : Represents pool entries)
    (leaves : LeavesEntry pool entries call) :
    performChecked call pool = call.perform pool := by
  cases call with
  | malloc sz => rfl
  | calloc nmemb size => rfl
  | realloc ptr sz =>
      rcases poolFree_spec represents ptr with ⟨after, releases, -⟩
      have checked := (poolFreeChecked_spec represents ptr).1 (leaves ptr rfl)
      rw [performChecked, HeapCall.perform, realloc, bind_of_ok releases,
        bind_of_ok (checked.trans releases)]
  | free ptr =>
      rcases poolFree_spec represents ptr with ⟨after, releases, -⟩
      have checked := (poolFreeChecked_spec represents ptr).1 (leaves ptr rfl)
      rw [performChecked, HeapCall.perform, MallocPool.free,
        bind_of_ok releases, bind_of_ok (checked.trans releases)]

/-- A checked call which returned left an entry. -/
theorem leavesEntry_of_returns
    {rv : BitVec 64} {after : Pool}
    (represents : Represents pool entries)
    (returns : performChecked call pool = .ok rv after) :
    LeavesEntry pool entries call := by
  intro ptr releasing empty
  rcases (poolFreeChecked_spec represents ptr).2 empty with ⟨_, faulted⟩
  cases call with
  | malloc sz => cases releasing
  | calloc nmemb size => cases releasing
  | realloc other sz =>
      cases releasing
      rw [performChecked, bind_of_error faulted] at returns
      cases returns
  | free other =>
      cases releasing
      rw [performChecked, bind_of_error faulted] at returns
      cases returns

/-- The limits, in terms of the stack. -/
theorem InBuffer.withinLimits_iff
    (inBuffer : InBuffer buffer pool entries) :
    WithinLimits pool call ↔
      LeavesEntry pool entries call ∧
        ∀ size, call.requesting = some size →
          Fits (call.poolReleased pool) size := by
  have released := inBuffer.released call
  rw [WithinLimits, HeapCall.poolReleased, LeavesEntry]
  rw [HeapCall.poolReleased, HeapCall.entriesReleased] at released
  cases releasing : call.releasing with
  | none => simp
  | some ptr =>
      simp only [releasing, Option.some.injEq, forall_eq'] at released ⊢
      constructor
      · rintro ⟨i, top, room⟩
        have notEmpty := inBuffer.notEmpty_of_top top
        rcases inBuffer.top _ released notEmpty with ⟨j, topJ, fitsIff⟩
        rw [top.unique topJ] at room
        exact
          ⟨notEmpty, fun size requested =>
            (fitsIff size).1 (room size requested)⟩
      · rintro ⟨notEmpty, fits⟩
        rcases inBuffer.top _ released notEmpty with ⟨i, top, fitsIff⟩
        exact
          ⟨i, top, fun size requested =>
            (fitsIff size).2 (fits size requested)⟩

/-- A request is made of the pool which the release has left. -/
theorem request_of_perform
    {rv : BitVec 64} {after : Pool} {size : Nat}
    (returns : call.perform pool = .ok rv after)
    (requested : call.requesting = some size) :
    ∃ sizeInt middle,
      poolAlloc sizeInt (call.poolReleased pool) = .ok rv middle := by
  cases call with
  | malloc sz => exact ⟨_, after, returns⟩
  | calloc nmemb size =>
      rcases ok_of_bind returns with ⟨first, middle, allocates, rest⟩
      rcases ok_of_bind rest with ⟨_, last, -, ends⟩
      cases ends
      exact ⟨_, middle, allocates⟩
  | realloc ptr sz =>
      rcases ok_of_bind returns with ⟨_, middle, releases, allocates⟩
      refine ⟨int sz.toNat, after, ?_⟩
      simp only [HeapCall.poolReleased, HeapCall.releasing, releases,
        finalState_ok]
      exact allocates
  | free ptr => cases requested

/-- A call within the limits does all that is asked of it. -/
theorem InBuffer.performs
    (inBuffer : InBuffer buffer pool entries)
    (limits : WithinLimits pool call) :
    ∃ rv after afterEntries,
      performChecked call pool = .ok rv after ∧
        call.perform pool = .ok rv after ∧
        InBuffer buffer after afterEntries ∧
        ∀ size, call.requesting = some size →
          Fits (call.poolReleased pool) size ∧
            buffer.address.toNat ≤ rv.toNat ∧
            rv.toNat + size ≤ buffer.address.toNat + 100000 := by
  rcases inBuffer.withinLimits_iff.1 limits with ⟨leaves, fits⟩
  rcases perform_represents inBuffer.represents inBuffer.p_eq fits with
    ⟨rv, after, returns, represents, placed, rvEq⟩
  have checked := performChecked_eq inBuffer.represents leaves
  refine
    ⟨rv, after, _, checked.trans returns, returns, ⟨represents, placed⟩, ?_⟩
  intro size requested
  have start := rvEq size requested
  have bytesFit := represents.bytesFit
  simp only [HeapCall.entriesAfter, requested, height_push, bufSize]
    at bytesFit
  exact ⟨fits size requested, by omega, by omega⟩

/-- A call which keeps to its bounds was within the limits. -/
theorem InBuffer.limits_of_bounds
    (inBuffer : InBuffer buffer pool entries)
    (bounds : WithinBounds buffer pool call) : WithinLimits pool call := by
  rcases bounds with ⟨rv, after, checkedReturns, returns, range⟩
  have leaves := leavesEntry_of_returns inBuffer.represents checkedReturns
  refine inBuffer.withinLimits_iff.2 ⟨leaves, ?_⟩
  intro size requested
  rcases request_of_perform returns requested with
    ⟨sizeInt, middle, allocates⟩
  exact
    (inBuffer.released call).fits_of_within allocates fun notNull =>
      ((range size requested).1 notNull).2

/-- The limits decide whether a call stays within its arrays. -/
theorem InBuffer.withinBounds_iff
    (inBuffer : InBuffer buffer pool entries) (call : HeapCall) :
    WithinBounds buffer pool call ↔ WithinLimits pool call := by
  constructor
  · exact inBuffer.limits_of_bounds
  · intro limits
    rcases inBuffer.performs limits with
      ⟨rv, after, _, checkedReturns, returns, -, range⟩
    refine ⟨rv, after, checkedReturns, returns, ?_⟩
    intro size requested
    rcases range size requested with ⟨fits, lower, upper⟩
    constructor
    · intro _
      exact ⟨lower, upper⟩
    · intro tooLarge
      exact absurd fits tooLarge

end OneCall

/-! ## Runs -/

/-- A call which keeps to the limits and returned. -/
structure LimitedStep (before : Pool) (call : HeapCall) (after : Pool) :
    Prop where
  limits : WithinLimits before call
  returns : ∃ rv, call.perform before = .ok rv after

/-- A call within the limits keeps the pool in its buffer. -/
theorem LimitedStep.inBuffer
    {buffer : Buffer} {before after : Pool} {call : HeapCall}
    {entries : List Entry} (step : LimitedStep before call after)
    (inBuffer : InBuffer buffer before entries) :
    ∃ afterEntries, InBuffer buffer after afterEntries := by
  rcases inBuffer.performs step.limits with
    ⟨rv, pool, afterEntries, -, returns, afterIn, -⟩
  rcases step.returns with ⟨value, performed⟩
  rw [returns] at performed
  cases performed
  exact ⟨afterEntries, afterIn⟩

/-- In a run within the limits a call keeps to its bounds exactly if it is
within the limits too. -/
theorem pool_bounds_iff
    (buffer : Buffer) {calls : List HeapCall} {pool : Pool}
    (run : Run LimitedStep (Pool.initial buffer.address) calls pool)
    (call : HeapCall) :
    WithinBounds buffer pool call ↔ WithinLimits pool call := by
  have reached :
      ∃ entries, InBuffer buffer pool entries := by
    refine
      run.invariant (fun pool => ∃ entries, InBuffer buffer pool entries)
        ⟨[], represents_initial buffer.address, rfl⟩ ?_
    rintro call before after ⟨entries, inBuffer⟩ step
    exact step.inBuffer inBuffer
  rcases reached with ⟨entries, inBuffer⟩
  exact inBuffer.withinBounds_iff call

/-- The pool with the history array of 800 bytes. -/
def historyPool : Pool :=
  finalState (malloc 800 (Pool.initial sampleBuffer.address))

/-- After the array of the history, a line still fits. -/
theorem pool_bounds_iff_history :
    Run LimitedStep (Pool.initial sampleBuffer.address) [.malloc 800]
        historyPool ∧
      (WithinBounds sampleBuffer historyPool (.malloc 4096) ↔
        WithinLimits historyPool (.malloc 4096)) := by
  have inside : InTable (Pool.initial sampleBuffer.address).nalloc := by
    decide
  have limits :
      WithinLimits (Pool.initial sampleBuffer.address) (.malloc 800) := by
    rintro size same
    cases same
    constructor <;> decide
  have returns :
      HeapCall.perform (.malloc 800) (Pool.initial sampleBuffer.address) =
        .ok
          (BitVec.ofInt 64
            ((Pool.initial sampleBuffer.address).p.toNat +
              (Pool.initial sampleBuffer.address).n)) historyPool := by
    rw [historyPool, HeapCall.perform, malloc, poolAlloc_run inside]
    rfl
  have run :
      Run LimitedStep (Pool.initial sampleBuffer.address) [.malloc 800]
        historyPool :=
    .step .start ⟨limits, _, returns⟩
  exact ⟨run, pool_bounds_iff sampleBuffer run (.malloc 4096)⟩

/-- A request for more than the whole buffer is answered with its start. -/
theorem oversized_request_is_answered :
    ¬ WithinBounds sampleBuffer (Pool.initial sampleBuffer.address)
        (.malloc 100001) := by
  intro bounds
  have initially :
      InBuffer sampleBuffer (Pool.initial sampleBuffer.address) [] :=
    ⟨represents_initial sampleBuffer.address, rfl⟩
  have limits := initially.limits_of_bounds bounds
  have bytes : (0 : Int) + 100001 ≤ 100000 := (limits 100001 rfl).1
  exact absurd bytes (by decide)

end NopOS.Heap.PoolBounds
