import NopOS.Heap.GuardedPool
import NopOS.Shell.Linenoise

/-!
# The heap while a line is edited

While a line is edited the pool holds the history array and the empty string
of the current line.  A refresh stacks its append buffer on them and takes it
off again; nothing else touches the heap.
-/

namespace NopOS.Shell.EditorHeap

open NopOS.Lib.BlockStack
open NopOS.Lib.StatefulProgram
open NopOS.Heap.MallocPool
open NopOS.Heap.PoolRefinement
open NopOS.Heap.HeapRuns
open NopOS.Heap.PoolBounds
open NopOS.Heap.GuardedPool
open NopOS.Shell.Linenoise

/-- The history array. -/
def restEntries : List Entry := [⟨800, true⟩]

/-- The history array and the string of the current line. -/
def editEntries : List Entry := [⟨1, true⟩, ⟨800, true⟩]

/-! ## What the account says -/

/-- The history array is the one live entry of the pool. -/
structure HistoryOnly (pool : Pool) (history : Pointer) : Prop where
  n : pool.n = 800
  nalloc : pool.nalloc = 1
  alloc : pool.alloc 0 = 0
  allocSize : pool.allocSize 0 = 800
  array : history = pool.p

/-- All that is in the account is right. -/
structure Recorded (shell : Machine) : Prop where
  calls : ∀ entry ∈ shell.calls, KeepsLimits entry.1 entry.2
  freed : ∀ entry ∈ shell.freed, HistoryOnly entry.1 entry.2

/-- What calls to the heap leave of the shell. -/
structure Follows (before after : Machine) : Prop where
  history : after.history = before.history
  slots : after.slots = before.slots
  historyLen : after.historyLen = before.historyLen
  line : after.line = before.line
  input : after.input = before.input
  recorded : Recorded before → Recorded after

theorem Follows.trans {first second third : Machine}
    (left : Follows first second) (right : Follows second third) :
    Follows first third where
  history := right.history.trans left.history
  slots := right.slots.trans left.slots
  historyLen := right.historyLen.trans left.historyLen
  line := right.line.trans left.line
  input := right.input.trans left.input
  recorded := right.recorded ∘ left.recorded

/-! ## Calls to the heap -/

/-- A call within the limits is recorded. -/
theorem heap_of_perform
    {shell : Machine} {call : HeapCall} {rv : Pointer} {pool : Pool}
    (returns : call.perform shell.pool = .ok rv pool)
    (keeps : KeepsLimits shell.pool call) :
    ∃ after,
      heap call shell = .ok rv after ∧
        after.pool = pool ∧ Follows shell after := by
  let after : Machine :=
    { shell with
      pool := pool
      calls := shell.calls ++ [(shell.pool, call)] }
  have runs : heap call shell = .ok rv after := by
    rw [heap, returns]
  have recorded (known : Recorded shell) : Recorded after := by
    constructor
    · intro entry isCall
      rcases List.mem_append.1 isCall with earlier | last
      · exact known.calls entry earlier
      · rw [List.mem_singleton.1 last]
        exact keeps
    · exact known.freed
  exact
    ⟨after, runs, rfl,
      { history := rfl
        slots := rfl
        historyLen := rfl
        line := rfl
        input := rfl
        recorded := recorded }⟩

section Buffers

variable {buffer : Buffer} {shell : Machine} {entries : List Entry}

/-- The offset of a pointer in low memory. -/
theorem freeOffset_of_small
    (inBuffer : InBuffer buffer shell.pool entries) {ptr : Pointer}
    (small : ptr.toNat < 2 ^ 31) :
    freeOffset shell.pool ptr = ptr.toNat - buffer.address.toNat := by
  have below := buffer.below
  rw [freeOffset, inBuffer.p_eq]
  exact int_of_small (by omega) (by omega)

/-- An append buffer over the entries of the edit; it is empty, or it is the
block on top. -/
structure Buffered (buffer : Buffer) (shell : Machine) (ab : Abuf) : Prop where
  entries :
    ∃ entries,
      InBuffer buffer shell.pool entries ∧
        giveBack (freeOffset shell.pool ab.b) entries = editEntries

theorem buffered_abInit
    (inBuffer : InBuffer buffer shell.pool editEntries) :
    Buffered buffer shell abInit := by
  have offset : freeOffset shell.pool 0 = -buffer.address.toNat := by
    have zero : (0 : Pointer).toNat = 0 := rfl
    rw [freeOffset_of_small inBuffer (by decide), zero]
    omega
  refine ⟨editEntries, inBuffer, ?_⟩
  show giveBack (freeOffset shell.pool 0) editEntries = editEntries
  have notNull := buffer.notNull
  rw [offset, editEntries, giveBack_cons, if_pos]
  · rw [mark, mark]
    have different :
        ¬ (height [] : Int) = -(buffer.address.toNat : Int) := by
      rw [height]
      omega
    rw [if_neg different]
  · constructor
    · rfl
    · rw [height, height]
      omega

/-- The block on top of the entries of the edit. -/
theorem giveBack_top (size : Nat) :
    giveBack 801 (push size editEntries) = editEntries := rfl

theorem buffered_of_top
    {size : Nat} {ab : Abuf}
    (inBuffer : InBuffer buffer shell.pool (push size editEntries))
    (pointer : ab.b.toNat = buffer.address.toNat + 801) :
    Buffered buffer shell ab := by
  have below := buffer.below
  have offset : freeOffset shell.pool ab.b = 801 := by
    rw [freeOffset_of_small inBuffer (by omega), pointer]
    omega
  refine ⟨_, inBuffer, ?_⟩
  rw [offset]
  exact giveBack_top size

/-- The append buffer grows on top of the pool. -/
theorem abAppend_spec
    {ab : Abuf} (buffered : Buffered buffer shell ab) {s : List Byte}
    (short : ab.len + s.length ≤ 1000) :
    ∃ longer after,
      abAppend ab s shell = .ok longer after ∧
        Buffered buffer after longer ∧
        longer.len = ab.len + s.length ∧ Follows shell after := by
  rcases buffered.entries with ⟨entries, inBuffer, given⟩
  have size :
      (BitVec.ofNat 64 (ab.len + s.length)).toNat = ab.len + s.length := by
    rw [BitVec.toNat_ofNat]
    omega
  have bytes :
      height editEntries + (BitVec.ofNat 64 (ab.len + s.length)).toNat ≤
        100000 := by
    rw [size]
    show 801 + (ab.len + s.length) ≤ 100000
    omega
  rcases
      realloc_keeps inBuffer given (List.cons_ne_nil _ _) bytes (by decide) with
    ⟨rv, pool, returns, rvEq, poolIn, keeps⟩
  rcases heap_of_perform returns keeps with ⟨after, runs, poolEq, follows⟩
  rw [← poolEq] at poolIn
  have notNull : rv ≠ 0 := by
    intro null
    have positive := buffer.notNull
    rw [null] at rvEq
    have zero : (0 : Pointer).toNat = 0 := rfl
    omega
  refine
    ⟨⟨rv, ab.len + s.length⟩, after, ?_, buffered_of_top poolIn rvEq, rfl,
      follows⟩
  rw [abAppend, bind_of_ok runs, if_neg notNull]
  rfl

/-- And it is given back as a whole. -/
theorem abFree_spec
    {ab : Abuf} (buffered : Buffered buffer shell ab) :
    ∃ after,
      abFree ab shell = .ok () after ∧
        InBuffer buffer after.pool editEntries ∧ Follows shell after := by
  rcases buffered.entries with ⟨entries, inBuffer, given⟩
  rcases free_keeps inBuffer given (List.cons_ne_nil _ _) with
    ⟨pool, returns, poolIn, keeps⟩
  rcases heap_of_perform returns keeps with ⟨after, runs, poolEq, follows⟩
  rw [← poolEq] at poolIn
  refine ⟨after, ?_, poolIn, follows⟩
  rw [abFree, bind_of_ok runs]
  rfl

end Buffers

/-! ## The refresh -/

theorem sizeSub_eq {a b : Nat} (below : b ≤ a) (inWord : a < 2 ^ 64) :
    sizeSub a b = a - b := by
  rw [sizeSub]
  omega

/-- The edited line: the cursor lies in it, and it is terminated. -/
structure LineOk (l : LinenoiseState) : Prop where
  prompt : l.prompt.length = 4
  plen : l.plen = 4
  cols : l.cols = 80
  buflen : l.buflen = 4095
  pos_le : l.pos ≤ l.len
  len_le : l.len ≤ 4095
  terminated : l.buf l.len = 0

theorem LineOk.changed
    {l : LinenoiseState} (lineOk : LineOk l)
    {buf : Nat → Byte} {pos len : Nat}
    (inside : pos ≤ len) (short : len ≤ 4095) (terminated : buf len = 0) :
    LineOk { l with buf := buf, pos := pos, len := len } where
  prompt := lineOk.prompt
  plen := lineOk.plen
  cols := lineOk.cols
  buflen := lineOk.buflen
  pos_le := inside
  len_le := short
  terminated := terminated

/-- The loop scrolls until the cursor is in sight. -/
theorem scrollLoop_spec
    {plen cols : Nat} (narrow : plen < cols) (fuel buf len pos : Nat)
    (shell : Machine)
    (inside : pos ≤ len) (inWord : len < 2 ^ 64) (enough : pos < fuel) :
    ∃ buf' len' pos',
      scrollLoop plen cols fuel (buf, len, pos) shell =
          .ok (buf', len', pos') shell ∧
        len' ≤ len := by
  induction fuel generalizing buf len pos with
  | zero => exact absurd enough (Nat.not_lt_zero pos)
  | succ fuel induction =>
      rw [scrollLoop]
      by_cases outside : plen + pos ≥ cols
      · have lenLess : sizeSub len 1 = len - 1 :=
          sizeSub_eq (by omega) inWord
        have posLess : sizeSub pos 1 = pos - 1 :=
          sizeSub_eq (by omega) (by omega)
        have insideLess : pos - 1 ≤ len - 1 := by omega
        have lessInWord : len - 1 < 2 ^ 64 := by omega
        have enoughLess : pos - 1 < fuel := by omega
        rcases induction _ _ _ insideLess lessInWord enoughLess with
          ⟨buf', len', pos', runs, shorter⟩
        rw [if_pos outside, lenLess, posLess]
        exact ⟨buf', len', pos', runs, by omega⟩
      · rw [if_neg outside]
        exact ⟨buf, len, pos, rfl, Nat.le_refl len⟩

/-- The loop shortens the line to the columns that are left. -/
theorem shortenLoop_spec
    {plen cols : Nat} (narrow : plen < cols) (fuel len : Nat)
    (shell : Machine) (inWord : len < 2 ^ 64) (enough : len < fuel) :
    ∃ len',
      shortenLoop plen cols fuel len shell = .ok len' shell ∧
        plen + len' ≤ cols := by
  induction fuel generalizing len with
  | zero => exact absurd enough (Nat.not_lt_zero len)
  | succ fuel induction =>
      rw [shortenLoop]
      by_cases tooLong : plen + len > cols
      · have less : sizeSub len 1 = len - 1 := sizeSub_eq (by omega) inWord
        rw [if_pos tooLong, less]
        exact induction _ (by omega) (by omega)
      · rw [if_neg tooLong]
        exact ⟨len, rfl, Nat.le_of_not_lt tooLong⟩

theorem length_cursorRight (value : Int) : (cursorRight value).length ≤ 63 := by
  rw [cursorRight, List.length_take]
  exact Nat.min_le_left _ _

/-- A refresh takes off what it stacks. -/
theorem refreshLine_spec
    {buffer : Buffer} {shell : Machine}
    (inBuffer : InBuffer buffer shell.pool editEntries)
    (lineOk : LineOk shell.line) :
    ∃ after,
      refreshLine shell = .ok () after ∧
        InBuffer buffer after.pool editEntries ∧ Follows shell after := by
  have prompt := lineOk.prompt
  have cols := lineOk.cols
  have posLe := lineOk.pos_le
  have lenLe := lineOk.len_le
  have narrow : shell.line.prompt.length < shell.line.cols := by omega
  rcases
      scrollLoop_spec narrow (shell.line.pos + 1) 0 shell.line.len
        shell.line.pos shell posLe (by omega) (Nat.lt_succ_self _) with
    ⟨buf, len, pos, scrolls, shorter⟩
  rcases
      shortenLoop_spec narrow (len + 1) len shell (by omega)
        (Nat.lt_succ_self _) with
    ⟨shown, shortens, fits⟩
  have text :
      ((List.range shown).map fun i => shell.line.buf (buf + i)).length =
        shown := by
    rw [List.length_map, List.length_range]
  have last := length_cursorRight (int (pos + shell.line.prompt.length))
  rcases
      abAppend_spec (buffered_abInit inBuffer) (s := [0x0d]) (by decide) with
    ⟨ab1, shell1, runs1, buffered1, len1, follows1⟩
  have first : abInit.len + [(0x0d : Byte)].length = 1 := rfl
  have erase : [(0x1b : Byte), 0x5b, 0x30, 0x4b].length = 4 := rfl
  rcases
      abAppend_spec buffered1 (s := shell.line.prompt) (by omega) with
    ⟨ab2, shell2, runs2, buffered2, len2, follows2⟩
  rcases
      abAppend_spec buffered2
        (s := (List.range shown).map fun i => shell.line.buf (buf + i))
        (by omega) with
    ⟨ab3, shell3, runs3, buffered3, len3, follows3⟩
  rcases
      abAppend_spec buffered3 (s := [0x1b, 0x5b, 0x30, 0x4b])
        (by omega) with
    ⟨ab4, shell4, runs4, buffered4, len4, follows4⟩
  rcases
      abAppend_spec buffered4
        (s := cursorRight (int (pos + shell.line.prompt.length)))
        (by omega) with
    ⟨ab5, shell5, runs5, buffered5, len5, follows5⟩
  rcases abFree_spec buffered5 with ⟨after, frees, afterIn, follows6⟩
  refine
    ⟨after, ?_, afterIn,
      ((((follows1.trans follows2).trans follows3).trans follows4).trans
        follows5).trans follows6⟩
  rw [refreshLine, refreshSingleLine, bind_of_ok (get_run shell)]
  dsimp only
  rw [bind_of_ok scrolls]
  dsimp only
  rw [bind_of_ok shortens, bind_of_ok runs1, bind_of_ok runs2,
    bind_of_ok runs3, bind_of_ok runs4, bind_of_ok runs5]
  exact frees

end NopOS.Shell.EditorHeap
