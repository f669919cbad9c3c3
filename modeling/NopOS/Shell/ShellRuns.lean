import NopOS.Shell.EditorCommands

/-!
# The heap over the whole run of the shell

Between two lines the pool holds the history array and nothing else.  A line
is edited over it, its string takes the place of the history entry which was
dropped, and `main` frees the string.
-/

namespace NopOS.Shell.ShellRuns

open NopOS.Lib.BlockStack
open NopOS.Lib.StatefulProgram
open NopOS.Heap.MallocPool
open NopOS.Heap.PoolRefinement
open NopOS.Heap.HeapRuns
open NopOS.Heap.PoolBounds
open NopOS.Heap.GuardedPool
open NopOS.Shell.Linenoise
open NopOS.Shell.EditorHeap
open NopOS.Shell.EditorCommands

/-- Only the history array is allocated. -/
structure AtRest (buffer : Buffer) (shell : Machine) : Prop where
  inBuffer : InBuffer buffer shell.pool restEntries
  array : shell.history = buffer.address
  historyLen : shell.historyLen = 0
  recorded : Recorded shell

/-- A line can be edited; before the first one there is no array. -/
structure Ready (buffer : Buffer) (shell : Machine) : Prop where
  heap :
    (InBuffer buffer shell.pool [] ∧ shell.history = 0) ∨
      (InBuffer buffer shell.pool restEntries ∧
        shell.history = buffer.address)
  historyLen : shell.historyLen = 0
  recorded : Recorded shell

variable {buffer : Buffer} {shell : Machine} {entries : List Entry}

theorem AtRest.ready (atRest : AtRest buffer shell) : Ready buffer shell where
  heap := Or.inr ⟨atRest.inBuffer, atRest.array⟩
  historyLen := atRest.historyLen
  recorded := atRest.recorded

/-- The pool of a shell at rest. -/
theorem AtRest.historyOnly (atRest : AtRest buffer shell) :
    HistoryOnly shell.pool shell.history := by
  have represents := atRest.inBuffer.represents
  rcases represents.table with ⟨atAlloc, atSize, -⟩
  exact
    { n := represents.n_eq
      nalloc := represents.nalloc_eq
      alloc := atAlloc
      allocSize := atSize
      array := atRest.array.trans atRest.inBuffer.p_eq.symm }

theorem ne_zero_of_le {ptr : Pointer}
    (inside : buffer.address.toNat ≤ ptr.toNat) : ptr ≠ 0 := by
  intro null
  have positive := buffer.notNull
  rw [null] at inside
  have zero : (0 : Pointer).toNat = 0 := rfl
  omega

/-- The string which lies on the array is freed, and the shell is at rest. -/
theorem free_spec
    {string : Pointer} {size : Nat}
    (pointer : string.toNat = buffer.address.toNat + 800)
    (inBuffer : InBuffer buffer shell.pool (push size restEntries))
    (array : shell.history = buffer.address)
    (historyLen : shell.historyLen = 0) (recorded : Recorded shell) :
    ∃ after,
      heap (.free string) shell = .ok 0 after ∧
        AtRest buffer after ∧
        after.line = shell.line ∧ after.input = shell.input := by
  have below := buffer.below
  have offset : freeOffset shell.pool string = 800 := by
    rw [freeOffset_of_small inBuffer (by omega), pointer]
    omega
  have given :
      giveBack (freeOffset shell.pool string) (push size restEntries) =
        restEntries := by
    rw [offset]
    rfl
  rcases free_keeps inBuffer given (List.cons_ne_nil _ _) with
    ⟨pool, returns, poolIn, keeps⟩
  rcases heap_of_perform returns keeps with ⟨after, runs, poolEq, follows⟩
  rw [← poolEq] at poolIn
  exact
    ⟨after, runs,
      ⟨poolIn, follows.history.trans array,
        follows.historyLen.trans historyLen, follows.recorded recorded⟩,
      follows.line, follows.input⟩

/-! ## The history -/

/-- The string of the line is dropped. -/
theorem dropLatest_spec (editing : Editing buffer shell) :
    ∃ after,
      dropLatest shell = .ok () after ∧
        AtRest buffer after ∧
        after.line = shell.line ∧ after.input = shell.input := by
  have none : shell.historyLen - 1 = 0 := by
    rw [editing.historyLen]
    rfl
  let dropped : Machine := { shell with historyLen := 0 }
  have sets : setHistoryLen 0 shell = .ok () dropped := rfl
  have reads : readSlot 0 dropped = .ok (shell.slots 0) dropped := rfl
  have inBuffer : InBuffer buffer dropped.pool editEntries :=
    editing.inBuffer
  have array : dropped.history = buffer.address := editing.array
  have recorded : Recorded dropped :=
    ⟨editing.recorded.calls, editing.recorded.freed⟩
  rcases free_spec editing.latest inBuffer array rfl recorded with
    ⟨after, frees, atRest, line, input⟩
  refine ⟨after, ?_, atRest, line, input⟩
  rw [dropLatest, bind_of_ok (get_run shell), none, bind_of_ok sets,
    bind_of_ok reads, bind_of_ok frees]
  rfl

/-- A copy lies on top of the pool. -/
theorem strdup_spec
    (inBuffer : InBuffer buffer shell.pool entries) {string : List Byte}
    (short : string.length ≤ 4095)
    (bytes : height entries ≤ 1000) (number : entries.length < 1000) :
    ∃ rv after,
      strdup string shell = .ok rv after ∧
        rv.toNat = buffer.address.toNat + height entries ∧
        InBuffer buffer after.pool (push (string.length + 1) entries) ∧
        Follows shell after := by
  have size : (BitVec.ofNat 64 (string.length + 1)).toNat = string.length + 1 := by
    rw [BitVec.toNat_ofNat]
    omega
  have room :
      height entries + (BitVec.ofNat 64 (string.length + 1)).toNat ≤
        100000 := by
    omega
  rcases malloc_keeps inBuffer room number with
    ⟨rv, pool, returns, rvEq, poolIn, keeps⟩
  rcases heap_of_perform returns keeps with ⟨middle, runs, poolEq, follows⟩
  rw [← poolEq, size] at poolIn
  let after : Machine :=
    { middle with
      strings :=
        if rv ≠ 0 then Function.update middle.strings rv string
        else middle.strings }
  have copies : Follows middle after :=
    { history := rfl
      slots := rfl
      historyLen := rfl
      line := rfl
      input := rfl
      recorded := fun known => ⟨known.calls, known.freed⟩ }
  refine ⟨rv, after, ?_, rvEq, poolIn, follows.trans copies⟩
  rw [strdup, bind_of_ok runs]
  rfl

/-- After the first call the array of the history is there. -/
theorem historyInit_spec (ready : Ready buffer shell) :
    ∃ after,
      historyInit shell = .ok () after ∧
        AtRest buffer after ∧
        after.line = shell.line ∧ after.input = shell.input := by
  rcases ready.heap with ⟨inBuffer, noArray⟩ | ⟨inBuffer, array⟩
  · -- the first line
    have size : (BitVec.ofInt 64 (8 * historyMaxLen)).toNat = 800 := rfl
    have room :
        height [] + (BitVec.ofInt 64 (8 * historyMaxLen)).toNat ≤ 100000 := by
      rw [size]
      decide
    rcases malloc_keeps inBuffer room (by decide) with
      ⟨rv, pool, returns, rvEq, poolIn, keeps⟩
    rcases heap_of_perform returns keeps with ⟨middle, runs, poolEq, follows⟩
    rw [← poolEq] at poolIn
    have address : rv = buffer.address := BitVec.eq_of_toNat_eq rvEq
    let after : Machine :=
      { middle with
        history := rv
        slots := if rv = 0 then middle.slots else fun _ => 0 }
    have recorded := follows.recorded ready.recorded
    refine
      ⟨after, ?_,
        ⟨poolIn, address, follows.historyLen.trans ready.historyLen,
          ⟨recorded.calls, recorded.freed⟩⟩,
        follows.line, follows.input⟩
    rw [historyInit, bind_of_ok (get_run shell), if_pos noArray,
      bind_of_ok runs]
    rfl
  · have allocated : shell.history ≠ 0 := by
      rw [array]
      exact ne_zero_of_le (Nat.le_refl _)
    refine
      ⟨shell, ?_, ⟨inBuffer, array, ready.historyLen, ready.recorded⟩, rfl,
        rfl⟩
    rw [historyInit, bind_of_ok (get_run shell), if_neg allocated]
    rfl

/-- The empty string of the new line is the one entry of the history. -/
theorem historyAdd_spec
    (ready : Ready buffer shell) (lineOk : LineOk shell.line) :
    ∃ value after,
      linenoiseHistoryAdd [] shell = .ok value after ∧
        Editing buffer after ∧ after.input = shell.input := by
  rcases historyInit_spec ready with ⟨first, inits, atRest, line, input⟩
  have allocated : first.history ≠ 0 := by
    rw [atRest.array]
    exact ne_zero_of_le (Nat.le_refl _)
  have noDuplicate : isDuplicate [] first = .ok false first := by
    rw [isDuplicate, bind_of_ok (get_run first), if_pos atRest.historyLen]
    rfl
  have empty : ([] : List Byte).length ≤ 4095 := Nat.zero_le _
  rcases strdup_spec atRest.inBuffer empty (by decide) (by decide) with
    ⟨linecopy, second, copies, pointer, secondIn, follows⟩
  have noLen : second.historyLen = 0 :=
    follows.historyLen.trans atRest.historyLen
  have drops : dropOldest second = .ok () second := by
    have notFull : second.historyLen ≠ historyMaxLen := by
      rw [noLen]
      decide
    rw [dropOldest, bind_of_ok (get_run second), if_neg notFull]
    rfl
  have above : buffer.address.toNat ≤ linecopy.toNat := by omega
  have notNull : linecopy ≠ 0 := ne_zero_of_le above
  let third : Machine :=
    { second with slots := Function.update second.slots 0 linecopy }
  have writes : writeSlot 0 linecopy second = .ok () third := rfl
  let after : Machine := { third with historyLen := 1 }
  have sets : setHistoryLen (0 + 1) third = .ok () after := rfl
  have recorded := follows.recorded atRest.recorded
  have lineEq : second.line = shell.line := follows.line.trans line
  refine ⟨1, after, ?_, ?_, follows.input.trans input⟩
  · rw [linenoiseHistoryAdd, bind_of_ok inits, bind_of_ok (get_run first),
      if_neg allocated, bind_of_ok noDuplicate, if_neg Bool.false_ne_true,
      bind_of_ok copies, if_neg notNull, bind_of_ok drops,
      bind_of_ok (get_run second), noLen, bind_of_ok writes, bind_of_ok sets]
    rfl
  · exact
      { inBuffer := secondIn
        line := by
          show LineOk second.line
          rw [lineEq]
          exact lineOk
        historyLen := rfl
        latest := by
          show (Function.update second.slots 0 linecopy 0).toNat = _
          rw [Function.update_self]
          exact pointer
        array := follows.history.trans atRest.array
        recorded := ⟨recorded.calls, recorded.freed⟩ }

/-! ## The keys -/

/-- What is left when `linenoiseEdit` returns a value: unless the value is -1,
a line and the array. -/
structure Returned
    (buffer : Buffer) (value : Int) (before after : Machine) : Prop where
  atRest : value ≠ -1 → AtRest buffer after ∧ LineOk after.line
  recorded : Recorded after
  input : after.input.length ≤ before.input.length

/-- A key goes on with the edit, ends it, or needs more input. -/
def Handled
    (buffer : Buffer) (shell : Machine)
    (result : EStateM.Result Stop Machine (Option Int)) : Prop :=
  (∃ after,
      result = .ok none after ∧
        Editing buffer after ∧
        after.input.length ≤ shell.input.length) ∨
    (∃ value after,
      result = .ok (some value) after ∧
        Returned buffer value shell after) ∨
      ∃ after, result = .error .waiting after ∧ Recorded after

theorem handled_of_editsOrWaits
    {command : ShellExec Unit} (edits : EditsOrWaits buffer command)
    (editing : Editing buffer shell) :
    Handled buffer shell
      ((command >>= fun _ => (pure none : ShellExec (Option Int))) shell) := by
  rcases edits shell editing with
    ⟨after, runs, afterEditing, input⟩ | ⟨after, waits, recorded⟩
  · left
    exact ⟨after, bind_of_ok runs, afterEditing, input⟩
  · right
    right
    exact ⟨after, bind_of_error waits, recorded⟩

theorem handled_of_edits
    {command : ShellExec Unit} (edits : Edits buffer command)
    (editing : Editing buffer shell) :
    Handled buffer shell
      ((command >>= fun _ => (pure none : ShellExec (Option Int))) shell) :=
  handled_of_editsOrWaits edits.orWaits editing

/-- A key keeps the invariant, ends the edit or waits. -/
theorem handleKey_spec (c : Byte) (editing : Editing buffer shell) :
    Handled buffer shell (handleKey c shell) := by
  rcases dropLatest_spec editing with ⟨rest, drops, atRest, line, input⟩
  have restLine : LineOk rest.line := by
    rw [line]
    exact editing.line
  have restInput : rest.input.length ≤ shell.input.length := by
    rw [input]
  rw [handleKey]
  cases keyAction c with
  | enter =>
      right
      left
      refine
        ⟨rest.line.len, rest, ?_, fun _ => ⟨atRest, restLine⟩,
          atRest.recorded, restInput⟩
      show (dropLatest >>= _) shell = _
      rw [bind_of_ok drops]
      rfl
  | ctrlC =>
      right
      left
      exact
        ⟨-1, shell, rfl, fun notMinusOne => absurd rfl notMinusOne,
          editing.recorded, Nat.le_refl _⟩
  | backspace => exact handled_of_edits edits_backspace editing
  | ctrlD =>
      show Handled buffer shell (((get : ShellExec Machine) >>= _) shell)
      rw [bind_of_ok (get_run shell)]
      by_cases notEmpty : shell.line.len > 0
      · rw [if_pos notEmpty]
        exact handled_of_edits edits_delete editing
      · rw [if_neg notEmpty, bind_of_ok drops]
        right
        left
        exact
          ⟨-1, rest, rfl, fun notMinusOne => absurd rfl notMinusOne,
            atRest.recorded, restInput⟩
  | ctrlT => exact handled_of_edits edits_swapCharacters editing
  | ctrlB => exact handled_of_edits edits_moveLeft editing
  | ctrlF => exact handled_of_edits edits_moveRight editing
  | ctrlP => exact handled_of_edits (edits_historyNext .prev) editing
  | ctrlN => exact handled_of_edits (edits_historyNext .next) editing
  | esc => exact handled_of_editsOrWaits escapeSequence_spec editing
  | ctrlU => exact handled_of_edits edits_deleteLine editing
  | ctrlK => exact handled_of_edits edits_deleteToEnd editing
  | ctrlA => exact handled_of_edits edits_moveHome editing
  | ctrlE => exact handled_of_edits edits_moveEnd editing
  | ctrlL => exact handled_of_edits edits_refreshLine editing
  | ctrlW => exact handled_of_edits edits_deletePrevWord editing
  | other =>
      rcases insert_spec c editing with ⟨after, inserts, afterEditing, same⟩
      left
      refine ⟨after, ?_, afterEditing, by rw [same]⟩
      show (linenoiseEditInsert c >>= _) shell = _
      rw [bind_of_ok inserts]
      rfl

/-! ## The loop of `linenoiseEdit` -/

/-- An edit returns or waits, by induction on the fuel. -/
theorem editLoop_spec
    {fuel : Nat} (editing : Editing buffer shell)
    (enough : shell.input.length < fuel) :
    (∃ value after,
        editLoop fuel shell = .ok value after ∧
          Returned buffer value shell after ∧
          after.input.length < shell.input.length) ∨
      ∃ after, editLoop fuel shell = .error .waiting after ∧ Recorded after := by
  induction fuel generalizing shell with
  | zero => exact absurd enough (Nat.not_lt_zero _)
  | succ fuel induction =>
      rw [editLoop]
      cases input : shell.input with
      | nil =>
          right
          exact
            ⟨shell, bind_of_error (readByte_waiting input), editing.recorded⟩
      | cons c rest =>
          have consumed : (c :: rest).length = rest.length + 1 := rfl
          have inputLength : shell.input.length = rest.length + 1 := by
            rw [input, consumed]
          rw [bind_of_ok (readByte_cons input)]
          rcases handleKey_spec c (editing.withInput rest) with
            ⟨after, runs, afterEditing, left⟩ |
              ⟨value, after, runs, returned⟩ | ⟨after, waits, recorded⟩
          · rw [bind_of_ok runs]
            have leftRest : after.input.length ≤ rest.length := left
            have less : after.input.length < fuel := by omega
            rcases induction afterEditing less with
              ⟨value, last, returns, returned, lessLeft⟩ |
                ⟨last, waits, recorded⟩
            · left
              exact
                ⟨value, last, returns,
                  ⟨returned.atRest, returned.recorded, by omega⟩, by omega⟩
            · right
              exact ⟨last, waits, recorded⟩
          · left
            have left : after.input.length ≤ rest.length := returned.input
            refine
              ⟨value, after, ?_,
                ⟨returned.atRest, returned.recorded, by omega⟩, by omega⟩
            rw [bind_of_ok runs]
            rfl
          · right
            exact ⟨after, bind_of_error waits, recorded⟩

/-! ## The loop of `main` -/

theorem cString_of_terminated
    {buf : Nat → Byte} {len : Nat} (terminated : buf len = 0)
    (fuel start : Nat) (inside : start ≤ len) (enough : len - start < fuel) :
    ∃ string,
      cString buf start fuel = some string ∧ string.length ≤ len - start := by
  induction fuel generalizing start with
  | zero => exact absurd enough (Nat.not_lt_zero _)
  | succ fuel induction =>
      rw [cString]
      by_cases ends : buf start = 0
      · rw [if_pos ends]
        exact ⟨[], rfl, Nat.zero_le _⟩
      · have notLast : start ≠ len := by
          intro last
          rw [last] at ends
          exact ends terminated
        rcases induction (start + 1) (by omega) (by omega) with
          ⟨string, found, short⟩
        rw [if_neg ends, found]
        refine ⟨buf start :: string, rfl, ?_⟩
        rw [List.length_cons]
        omega

theorem lineString_spec (lineOk : LineOk shell.line) :
    ∃ string,
      lineString shell = .ok string shell ∧ string.length ≤ 4095 := by
  have lenLe := lineOk.len_le
  rcases
      cString_of_terminated lineOk.terminated 4096 0 (Nat.zero_le _)
        (by omega) with
    ⟨string, found, short⟩
  refine ⟨string, ?_, by omega⟩
  rw [lineString, bind_of_ok (get_run shell), found]
  rfl

/-- The line which is edited is well formed from the start. -/
theorem lineOk_start (buf : Nat → Byte) :
    LineOk
      { buf := Function.update buf 0 0
        buflen := sizeSub linenoiseMaxLine 1
        prompt := shellPrompt
        plen := shellPrompt.length
        pos := 0
        len := 0
        cols := getColumns
        historyIndex := 0 } where
  prompt := rfl
  plen := rfl
  cols := rfl
  buflen := rfl
  pos_le := Nat.le_refl 0
  len_le := Nat.zero_le _
  terminated := Function.update_self 0 (0 : Byte) buf

/-- And so does `linenoiseRaw`. -/
theorem linenoiseRaw_spec (frame : Nat → Byte) (ready : Ready buffer shell) :
    (∃ value after,
        linenoiseRaw frame linenoiseMaxLine shellPrompt shell =
            .ok value after ∧
          Returned buffer value shell after ∧
          after.input.length < shell.input.length) ∨
      ∃ after,
        linenoiseRaw frame linenoiseMaxLine shellPrompt shell =
            .error .waiting after ∧
          Recorded after := by
  let started : Machine :=
    { shell with
      line :=
        { buf := Function.update frame 0 0
          buflen := sizeSub linenoiseMaxLine 1
          prompt := shellPrompt
          plen := shellPrompt.length
          pos := 0
          len := 0
          cols := getColumns
          historyIndex := 0 } }
  have sets : setLine started.line shell = .ok () started := rfl
  have startedReady : Ready buffer started :=
    { heap := ready.heap
      historyLen := ready.historyLen
      recorded := ⟨ready.recorded.calls, ready.recorded.freed⟩ }
  rcases historyAdd_spec startedReady (lineOk_start frame) with
    ⟨_, editor, adds, editing, input⟩
  have inputEq : editor.input = shell.input := input
  have printed : write shellPrompt.length ≠ -1 := by decide
  have edit :
      linenoiseRaw frame linenoiseMaxLine shellPrompt shell =
        editLoop (editor.input.length + 1) editor := by
    show (setLine started.line >>= _) shell = _
    rw [bind_of_ok sets, bind_of_ok adds, if_neg printed,
      bind_of_ok (get_run editor)]
  rw [edit]
  rcases editLoop_spec editing (Nat.lt_succ_self _) with
    ⟨value, after, returns, returned, less⟩ | ⟨after, waits, recorded⟩
  · rw [inputEq] at less
    left
    exact
      ⟨value, after, returns,
        ⟨returned.atRest, returned.recorded, less.le⟩, less⟩
  · right
    exact ⟨after, waits, recorded⟩

/-- A line is given back over the history array, or none is. -/
theorem linenoise_spec (frame : Nat → Byte) (ready : Ready buffer shell) :
    (∃ after,
        linenoise frame shellPrompt shell = .ok 0 after ∧ Recorded after) ∨
      (∃ line size after,
        linenoise frame shellPrompt shell = .ok line after ∧
          line.toNat = buffer.address.toNat + 800 ∧
          InBuffer buffer after.pool (push size restEntries) ∧
          after.history = buffer.address ∧ after.historyLen = 0 ∧
          Recorded after ∧ after.input.length < shell.input.length) ∨
      ∃ after,
        linenoise frame shellPrompt shell = .error .waiting after ∧
          Recorded after := by
  rcases linenoiseRaw_spec frame ready with
    ⟨value, edited, returns, returned, less⟩ | ⟨after, waits, recorded⟩
  · rw [linenoise, bind_of_ok returns]
    by_cases failed : value = -1
    · left
      rw [if_pos failed]
      exact ⟨edited, rfl, returned.recorded⟩
    · right
      left
      rcases returned.atRest failed with ⟨atRest, lineOk⟩
      rcases lineString_spec lineOk with ⟨string, reads, short⟩
      rcases strdup_spec atRest.inBuffer short (by decide) (by decide) with
        ⟨line, after, copies, pointer, afterIn, follows⟩
      rw [if_neg failed, bind_of_ok reads]
      refine
        ⟨line, string.length + 1, after, copies, pointer, afterIn,
          follows.history.trans atRest.array,
          follows.historyLen.trans atRest.historyLen,
          follows.recorded atRest.recorded, ?_⟩
      rw [follows.input]
      exact less
  · right
    right
    exact ⟨after, bind_of_error waits, recorded⟩

/-- The loop of the shell ends or waits, with every release recorded. -/
theorem mainLoop_spec
    (frames : Nat → Nat → Byte) {fuel : Nat} (ready : Ready buffer shell)
    (enough : shell.input.length < fuel) :
    ∃ after,
      (mainLoop frames fuel shell = .ok () after ∨
          mainLoop frames fuel shell = .error .waiting after) ∧
        Recorded after := by
  induction fuel generalizing shell with
  | zero => exact absurd enough (Nat.not_lt_zero _)
  | succ fuel induction =>
      rw [mainLoop, bind_of_ok (get_run shell)]
      rcases linenoise_spec (frames shell.freed.length) ready with
        ⟨after, ends, recorded⟩ |
          ⟨line, size, edited, returns, pointer, inBuffer, array, historyLen,
            recorded, less⟩ | ⟨after, waits, recorded⟩
      · refine ⟨after, Or.inl ?_, recorded⟩
        rw [bind_of_ok ends]
        rfl
      · have above : buffer.address.toNat ≤ line.toNat := by omega
        rcases free_spec pointer inBuffer array historyLen recorded with
          ⟨rest, frees, atRest, -, input⟩
        let noted : Machine :=
          { rest with freed := rest.freed ++ [(rest.pool, rest.history)] }
        have notedRecorded : Recorded noted := by
          refine ⟨atRest.recorded.calls, ?_⟩
          intro entry isFreed
          rcases List.mem_append.1 isFreed with earlier | last
          · exact atRest.recorded.freed entry earlier
          · rw [List.mem_singleton.1 last]
            exact atRest.historyOnly
        have notedReady : Ready buffer noted :=
          { heap := atRest.ready.heap
            historyLen := atRest.historyLen
            recorded := notedRecorded }
        have notedInput : noted.input = edited.input := input
        rw [bind_of_ok returns, if_neg (ne_zero_of_le above),
          bind_of_ok frees]
        exact induction notedReady (by rw [notedInput]; omega)
      · exact ⟨after, Or.inr (bind_of_error waits), recorded⟩

end NopOS.Shell.ShellRuns
