import NopOS.Lib.StatefulProgram

/-!
# The malloc pool of `linenoise_dep.c`

The kernel's `malloc`, `calloc`, `realloc` and `free`.  An `int` is an integer
reduced modulo `2 ^ 32` where the source converts or adds.  The tables are
functions of their index; an access outside their bounds is a fault, except
the one the source relies on: `alloc[-1]` is the member in front of the array,
`total`.
-/

namespace NopOS.Heap.MallocPool

open NopOS.Lib.StatefulProgram

/-- Conversion to `int`. -/
def int (value : Int) : Int := value.bmod (2 ^ 32)

/-- `MAX_ALLOC`. -/
def maxAlloc : Int := 1000

/-- `sizeof(buf)`. -/
def bufSize : Int := 100000

/-- `struct pool`, and the bytes of `buf` by their offset. -/
structure Pool where
  p : BitVec 64
  n : Int
  total : Int
  alloc : Int → Int
  allocSize : Int → Int
  nalloc : Int
  buf : Int → BitVec 8

/-- An access outside the tables or outside `buf`, or no end. -/
inductive Fault where
  | index (i : Int)
  | outsideBuffer
  | outOfFuel
deriving DecidableEq

/-- What a function of the source does to the pool. -/
abbrev Exec := EStateM Fault Pool

/-- The static `pool`, with `buf` placed by the linker. -/
def Pool.initial (bufAddress : BitVec 64) : Pool where
  p := bufAddress
  n := 0
  total := bufSize
  alloc := fun _ => 0
  allocSize := fun _ => 0
  nalloc := 0
  buf := fun _ => 0

/-! ## Accesses to the tables -/

/-- An index inside the two tables. -/
def InTable (i : Int) : Prop := 0 ≤ i ∧ i < maxAlloc

instance (i : Int) : Decidable (InTable i) :=
  inferInstanceAs (Decidable (_ ∧ _))

/-- `alloc[i]`, where -1 reads `total`. -/
def readAlloc (i : Int) : Exec Int := do
  let pool ← get
  if InTable i then return pool.alloc i
  else if i = -1 then return pool.total
  else throw (.index i)

/-- `alloc[i] = value`. -/
def writeAlloc (i value : Int) : Exec Unit :=
  if InTable i then
    modify fun pool =>
      { pool with alloc := Function.update pool.alloc i value }
  else throw (.index i)

/-- `alloc_size[i]`. -/
def readAllocSize (i : Int) : Exec Int := do
  let pool ← get
  if InTable i then return pool.allocSize i
  else throw (.index i)

/-- `alloc_size[i] = value`. -/
def writeAllocSize (i value : Int) : Exec Unit :=
  if InTable i then
    modify fun pool =>
      { pool with allocSize := Function.update pool.allocSize i value }
  else throw (.index i)

/-! ## The pool -/

/-- `pool_alloc(p, size)`. -/
def poolAlloc (size : Int) : Exec (BitVec 64) := do
  let pool ← get
  let rv := BitVec.ofInt 64 (pool.p.toNat + pool.n)
  writeAlloc pool.nalloc pool.n
  writeAllocSize pool.nalloc size
  modify fun pool => { pool with n := int (pool.n + size) }
  modify fun pool => { pool with nalloc := int (pool.nalloc + 1) }
  return rv

/-- The `for` loop of `pool_free`, for the indices below the argument. -/
def markLoop (offset : Int) : Nat → Exec Unit
  | 0 => pure ()
  | i + 1 => do
      if (← readAlloc i) = offset then
        writeAlloc i (-1)
      markLoop offset i

/-- The `while` loop of `pool_free`. -/
def reclaimLoop : Nat → Exec Unit
  | 0 => throw .outOfFuel
  | fuel + 1 => do
      let pool ← get
      if (← readAlloc (pool.nalloc - 1)) = -1 ∧ pool.nalloc ≥ 0 then
        let size ← readAllocSize (pool.nalloc - 1)
        modify fun pool => { pool with n := int (pool.n - size) }
        modify fun pool => { pool with nalloc := int (pool.nalloc - 1) }
        reclaimLoop fuel

/-- `pool_free(p, free)`. -/
def poolFree (free : BitVec 64) : Exec Unit := do
  let pool ← get
  let offset := int (free.toNat - pool.p.toNat)
  markLoop offset pool.nalloc.toNat
  reclaimLoop (pool.nalloc + 2).toNat

/-! ## The library functions -/

/-- `_malloc(sz)`. -/
def malloc (sz : BitVec 64) : Exec (BitVec 64) :=
  poolAlloc (int sz.toNat)

/-- `memset(s, 0, n)` on the buffer. -/
def memsetZero (s n : BitVec 64) : Exec Unit := do
  let pool ← get
  let offset : Int := s.toNat - pool.p.toNat
  if n = 0 then pure ()
  else if 0 ≤ offset ∧ offset + n.toNat ≤ bufSize then
    modify fun pool =>
      { pool with
        buf := fun k =>
          if offset ≤ k ∧ k < offset + n.toNat then 0 else pool.buf k }
  else throw .outsideBuffer

/-- `calloc(nmemb, size)`. -/
def calloc (nmemb size : BitVec 64) : Exec (BitVec 64) := do
  let rv ← malloc (nmemb * size)
  memsetZero rv (nmemb * size)
  return rv

/-- `_realloc(ptr, sz)`. -/
def realloc (ptr sz : BitVec 64) : Exec (BitVec 64) := do
  poolFree ptr
  poolAlloc (int sz.toNat)

/-- `_free(ptr)`. -/
def free (ptr : BitVec 64) : Exec Unit :=
  poolFree ptr

/-! ## Runs of the accesses -/

theorem int_of_small
    {value : Int} (lower : -2 ^ 31 ≤ value) (upper : value < 2 ^ 31) :
    int value = value := by
  apply Int.bmod_eq_of_le <;> omega

theorem readAlloc_run
    {i : Int} (inside : InTable i) (pool : Pool) :
    readAlloc i pool = .ok (pool.alloc i) pool := by
  rw [readAlloc, bind_of_ok (get_run pool), if_pos inside]
  rfl

/-- `alloc[-1]` is `total`, which lies in front of the table. -/
theorem readAlloc_run_below (pool : Pool) :
    readAlloc (-1) pool = .ok pool.total pool := by
  rw [readAlloc, bind_of_ok (get_run pool), if_neg (by decide),
    if_pos rfl]
  rfl

theorem writeAlloc_run
    {i : Int} (inside : InTable i) (value : Int) (pool : Pool) :
    writeAlloc i value pool =
      .ok () { pool with
        alloc := Function.update pool.alloc i value } := by
  rw [writeAlloc, if_pos inside]
  rfl

theorem readAllocSize_run
    {i : Int} (inside : InTable i) (pool : Pool) :
    readAllocSize i pool = .ok (pool.allocSize i) pool := by
  rw [readAllocSize, bind_of_ok (get_run pool), if_pos inside]
  rfl

theorem writeAllocSize_run
    {i : Int} (inside : InTable i) (value : Int) (pool : Pool) :
    writeAllocSize i value pool =
      .ok () { pool with
        allocSize := Function.update pool.allocSize i value } := by
  rw [writeAllocSize, if_pos inside]
  rfl

/-- What `pool_alloc` returns and writes. -/
theorem poolAlloc_run
    {pool : Pool} (inside : InTable pool.nalloc) (size : Int) :
    poolAlloc size pool =
      .ok (BitVec.ofInt 64 (pool.p.toNat + pool.n)) { pool with
        alloc := Function.update pool.alloc pool.nalloc pool.n
        allocSize := Function.update pool.allocSize pool.nalloc size
        n := int (pool.n + size)
        nalloc := int (pool.nalloc + 1) } := by
  rw [poolAlloc, bind_of_ok (get_run pool),
    bind_of_ok (writeAlloc_run inside _ _),
    bind_of_ok (writeAllocSize_run inside _ _)]
  rfl

end NopOS.Heap.MallocPool
