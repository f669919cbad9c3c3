import NopOS.Shell.EditorHeap

/-!
# Every editing command keeps the invariant of the edit

A command changes the line, keeps it well formed and refreshes it, so that the
heap is as it was.  The history has one entry while a line is edited, and the
commands which walk through it do nothing.
-/

namespace NopOS.Shell.EditorCommands

open NopOS.Lib.ByteRange
open NopOS.Lib.StatefulProgram
open NopOS.Heap.MallocPool
open NopOS.Heap.HeapRuns
open NopOS.Heap.PoolBounds
open NopOS.Shell.Linenoise
open NopOS.Shell.EditorHeap

/-- What every command finds and leaves while a line is edited. -/
structure Editing (buffer : Buffer) (shell : Machine) : Prop where
  inBuffer : InBuffer buffer shell.pool editEntries
  line : LineOk shell.line
  historyLen : shell.historyLen = 1
  /-- The string of the current line lies on the array. -/
  latest : (shell.slots 0).toNat = buffer.address.toNat + 800
  array : shell.history = buffer.address
  recorded : Recorded shell

/-- A command which keeps the invariant and reads nothing. -/
def Edits (buffer : Buffer) (command : ShellExec Unit) : Prop :=
  ∀ shell, Editing buffer shell →
    ∃ after,
      command shell = .ok () after ∧
        Editing buffer after ∧ after.input = shell.input

/-- A command which keeps the invariant or stops to wait for input. -/
def EditsOrWaits (buffer : Buffer) (command : ShellExec Unit) : Prop :=
  ∀ shell, Editing buffer shell →
    (∃ after,
        command shell = .ok () after ∧
          Editing buffer after ∧
          after.input.length ≤ shell.input.length) ∨
      ∃ after, command shell = .error .waiting after ∧ Recorded after

variable {buffer : Buffer} {shell : Machine}

/-! ## Changes of the line -/

namespace Editing

/-- What leaves the tables and the line keeps the invariant. -/
theorem follow
    (editing : Editing buffer shell) {after : Machine}
    (follows : Follows shell after)
    (inBuffer : InBuffer buffer after.pool editEntries) :
    Editing buffer after where
  inBuffer := inBuffer
  line := by
    rw [follows.line]
    exact editing.line
  historyLen := follows.historyLen.trans editing.historyLen
  latest := by
    rw [follows.slots]
    exact editing.latest
  array := follows.history.trans editing.array
  recorded := follows.recorded editing.recorded

theorem withLine
    (editing : Editing buffer shell) {line : LinenoiseState}
    (lineOk : LineOk line) :
    Editing buffer { shell with line := line } where
  inBuffer := editing.inBuffer
  line := lineOk
  historyLen := editing.historyLen
  latest := editing.latest
  array := editing.array
  recorded := ⟨editing.recorded.calls, editing.recorded.freed⟩

theorem withInput
    (editing : Editing buffer shell) (input : List Byte) :
    Editing buffer { shell with input := input } where
  inBuffer := editing.inBuffer
  line := editing.line
  historyLen := editing.historyLen
  latest := editing.latest
  array := editing.array
  recorded := ⟨editing.recorded.calls, editing.recorded.freed⟩

end Editing

theorem edits_refreshLine : Edits buffer refreshLine := by
  intro shell editing
  rcases refreshLine_spec editing.inBuffer editing.line with
    ⟨after, runs, inBuffer, follows⟩
  exact ⟨after, runs, editing.follow follows inBuffer, follows.input⟩

theorem edits_pure : Edits buffer (pure ()) := by
  intro shell editing
  exact ⟨shell, rfl, editing, rfl⟩

/-- A new line is shown. -/
theorem Editing.replace
    (editing : Editing buffer shell) {line : LinenoiseState}
    (lineOk : LineOk line) :
    ∃ after,
      (setLine line >>= fun _ => refreshLine) shell = .ok () after ∧
        Editing buffer after ∧ after.input = shell.input := by
  have set : setLine line shell = .ok () { shell with line := line } := rfl
  rw [bind_of_ok set]
  exact edits_refreshLine _ (editing.withLine lineOk)

/-- A new line is shown before what comes next. -/
theorem Editing.replace_then
    {α : Type} (editing : Editing buffer shell) {line : LinenoiseState}
    (lineOk : LineOk line) (rest : Unit → ShellExec α) :
    ∃ after,
      (setLine line >>= fun _ => refreshLine >>= rest) shell =
          rest () after ∧
        Editing buffer after ∧ after.input = shell.input := by
  have set : setLine line shell = .ok () { shell with line := line } := rfl
  rcases edits_refreshLine _ (editing.withLine lineOk) with
    ⟨after, runs, afterEditing, input⟩
  refine ⟨after, ?_, afterEditing, input⟩
  rw [bind_of_ok set, bind_of_ok runs]

/-! ## Moves -/

theorem Editing.moveTo
    (editing : Editing buffer shell) {pos : Nat}
    (inside : pos ≤ shell.line.len) :
    ∃ after,
      moveTo pos shell = .ok () after ∧
        Editing buffer after ∧ after.input = shell.input := by
  have line := editing.line
  rw [Linenoise.moveTo, bind_of_ok (get_run shell)]
  exact editing.replace (line.changed inside line.len_le line.terminated)

theorem edits_moveLeft : Edits buffer linenoiseEditMoveLeft := by
  intro shell editing
  have posLe := editing.line.pos_le
  have lenLe := editing.line.len_le
  rw [linenoiseEditMoveLeft, bind_of_ok (get_run shell)]
  by_cases moves : shell.line.pos > 0
  · have less : sizeSub shell.line.pos 1 = shell.line.pos - 1 :=
      sizeSub_eq (by omega) (by omega)
    rw [if_pos moves, less]
    exact editing.moveTo (by omega)
  · rw [if_neg moves]
    exact edits_pure shell editing

theorem edits_moveRight : Edits buffer linenoiseEditMoveRight := by
  intro shell editing
  have posLe := editing.line.pos_le
  rw [linenoiseEditMoveRight, bind_of_ok (get_run shell)]
  by_cases moves : shell.line.pos ≠ shell.line.len
  · rw [if_pos moves]
    exact editing.moveTo (by omega)
  · rw [if_neg moves]
    exact edits_pure shell editing

theorem edits_moveHome : Edits buffer linenoiseEditMoveHome := by
  intro shell editing
  rw [linenoiseEditMoveHome, bind_of_ok (get_run shell)]
  by_cases moves : shell.line.pos ≠ 0
  · rw [if_pos moves]
    exact editing.moveTo (Nat.zero_le _)
  · rw [if_neg moves]
    exact edits_pure shell editing

theorem edits_moveEnd : Edits buffer linenoiseEditMoveEnd := by
  intro shell editing
  rw [linenoiseEditMoveEnd, bind_of_ok (get_run shell)]
  by_cases moves : shell.line.pos ≠ shell.line.len
  · rw [if_pos moves]
    exact editing.moveTo (Nat.le_refl _)
  · rw [if_neg moves]
    exact edits_pure shell editing

/-! ## Changes of the text -/

/-- A character is inserted, or the line is full. -/
theorem insert_spec (c : Byte) (editing : Editing buffer shell) :
    ∃ after,
      linenoiseEditInsert c shell = .ok 0 after ∧
        Editing buffer after ∧ after.input = shell.input := by
  have line := editing.line
  have posLe := line.pos_le
  have buflen := line.buflen
  rw [linenoiseEditInsert, bind_of_ok (get_run shell)]
  dsimp only
  by_cases room : shell.line.len < shell.line.buflen
  · rw [if_pos room]
    by_cases atEnd : shell.line.len = shell.line.pos
    · rw [if_pos atEnd]
      have lineOk :
          LineOk
            { shell.line with
              buf :=
                Function.update
                  (Function.update shell.line.buf shell.line.pos c)
                  (shell.line.len + 1) 0
              pos := shell.line.pos + 1
              len := shell.line.len + 1 } :=
        line.changed (by omega) (by omega) (Function.update_self _ _ _)
      by_cases narrow :
          shell.line.plen + (shell.line.len + 1) < shell.line.cols
      · rw [if_pos narrow]
        exact ⟨_, rfl, editing.withLine lineOk, rfl⟩
      · rw [if_neg narrow]
        exact editing.replace_then lineOk (fun _ => pure 0)
    · rw [if_neg atEnd]
      have lineOk :
          LineOk
            { shell.line with
              buf :=
                Function.update
                  (Function.update
                    (memmove shell.line.buf (shell.line.pos + 1)
                      shell.line.pos
                      (sizeSub shell.line.len shell.line.pos))
                    shell.line.pos c)
                  (shell.line.len + 1) 0
              pos := shell.line.pos + 1
              len := shell.line.len + 1 } :=
        line.changed (by omega) (by omega) (Function.update_self _ _ _)
      exact editing.replace_then lineOk (fun _ => pure 0)
  · rw [if_neg room]
    exact ⟨shell, rfl, editing, rfl⟩

theorem edits_delete : Edits buffer linenoiseEditDelete := by
  intro shell editing
  have line := editing.line
  have lenLe := line.len_le
  rw [linenoiseEditDelete, bind_of_ok (get_run shell)]
  dsimp only
  by_cases deletes : shell.line.len > 0 ∧ shell.line.pos < shell.line.len
  · have less : sizeSub shell.line.len 1 ≤ 4095 := by
      rw [sizeSub]
      omega
    have inside : shell.line.pos ≤ sizeSub shell.line.len 1 := by
      rw [sizeSub]
      omega
    rw [if_pos deletes]
    exact
      editing.replace (line.changed inside less (Function.update_self _ _ _))
  · rw [if_neg deletes]
    exact edits_pure shell editing

theorem edits_backspace : Edits buffer linenoiseEditBackspace := by
  intro shell editing
  have line := editing.line
  have posLe := line.pos_le
  have lenLe := line.len_le
  rw [linenoiseEditBackspace, bind_of_ok (get_run shell)]
  dsimp only
  by_cases deletes : shell.line.pos > 0 ∧ shell.line.len > 0
  · have less : sizeSub shell.line.len 1 ≤ 4095 := by
      rw [sizeSub]
      omega
    have inside :
        sizeSub shell.line.pos 1 ≤ sizeSub shell.line.len 1 := by
      rw [sizeSub, sizeSub]
      omega
    rw [if_pos deletes]
    exact
      editing.replace (line.changed inside less (Function.update_self _ _ _))
  · rw [if_neg deletes]
    exact edits_pure shell editing

theorem backWhile_le (test : Byte → Bool) (buf : Nat → Byte) (pos : Nat) :
    backWhile test buf pos ≤ pos := by
  induction pos with
  | zero => exact Nat.le_refl 0
  | succ pos induction =>
      rw [backWhile]
      split
      · exact Nat.le_succ_of_le induction
      · exact Nat.le_refl _

/-- The loops backwards stop at the start of the line. -/
theorem edits_deletePrevWord : Edits buffer linenoiseEditDeletePrevWord := by
  intro shell editing
  have line := editing.line
  have posLe := line.pos_le
  have lenLe := line.len_le
  rw [linenoiseEditDeletePrevWord, bind_of_ok (get_run shell)]
  have blanks := backWhile_le (· = 0x20) shell.line.buf shell.line.pos
  have word :=
    backWhile_le (· ≠ 0x20) shell.line.buf
      (backWhile (· = 0x20) shell.line.buf shell.line.pos)
  generalize
    backWhile (· ≠ 0x20) shell.line.buf
        (backWhile (· = 0x20) shell.line.buf shell.line.pos) =
      pos at word ⊢
  have tail : sizeSub shell.line.len shell.line.pos =
      shell.line.len - shell.line.pos :=
    sizeSub_eq posLe (by omega)
  have diff : sizeSub shell.line.pos pos = shell.line.pos - pos :=
    sizeSub_eq (by omega) (by omega)
  have len :
      sizeSub shell.line.len (shell.line.pos - pos) =
        pos + (shell.line.len - shell.line.pos) := by
    rw [sizeSub]
    omega
  rw [tail, diff, len]
  apply editing.replace
  -- the terminating zero is moved with the rest of the line
  have terminated :
      memmove shell.line.buf pos shell.line.pos
          (shell.line.len - shell.line.pos + 1)
          (pos + (shell.line.len - shell.line.pos)) =
        0 := by
    have last : shell.line.pos + (shell.line.len - shell.line.pos) =
        shell.line.len := by
      omega
    rw [memmove, overwrite_inside (Nat.lt_succ_self _), last]
    exact line.terminated
  exact line.changed (by omega) (by omega) terminated

theorem edits_swapCharacters : Edits buffer swapCharacters := by
  intro shell editing
  have line := editing.line
  have lenLe := line.len_le
  rw [swapCharacters, bind_of_ok (get_run shell)]
  dsimp only
  by_cases swaps : shell.line.pos > 0 ∧ shell.line.pos < shell.line.len
  · have before : sizeSub shell.line.pos 1 = shell.line.pos - 1 :=
      sizeSub_eq (by omega) (by omega)
    rw [if_pos swaps]
    apply editing.replace
    apply line.changed
    · split <;> omega
    · exact lenLe
    · rw [Function.update_of_ne (by omega), before,
        Function.update_of_ne (by omega)]
      exact line.terminated
  · rw [if_neg swaps]
    exact edits_pure shell editing

theorem edits_deleteLine : Edits buffer deleteLine := by
  intro shell editing
  rw [deleteLine, bind_of_ok (get_run shell)]
  apply editing.replace
  exact
    editing.line.changed (Nat.le_refl 0) (by decide)
      (Function.update_self _ _ _)

theorem edits_deleteToEnd : Edits buffer deleteToEnd := by
  intro shell editing
  have line := editing.line
  have posLe := line.pos_le
  have lenLe := line.len_le
  rw [deleteToEnd, bind_of_ok (get_run shell)]
  apply editing.replace
  exact
    line.changed (Nat.le_refl _) (by omega) (Function.update_self _ _ _)

/-- There is no other entry to show. -/
theorem edits_historyNext (dir : Direction) :
    Edits buffer (linenoiseEditHistoryNext dir) := by
  intro shell editing
  have alone : ¬ shell.historyLen > 1 := by
    rw [editing.historyLen]
    decide
  rw [linenoiseEditHistoryNext, bind_of_ok (get_run shell), if_neg alone]
  exact edits_pure shell editing

/-! ## Escape sequences -/

theorem Edits.orWaits {command : ShellExec Unit}
    (edits : Edits buffer command) : EditsOrWaits buffer command := by
  intro shell editing
  rcases edits shell editing with ⟨after, runs, afterEditing, input⟩
  left
  exact ⟨after, runs, afterEditing, by rw [input]⟩

theorem readByte_waiting (empty : shell.input = []) :
    readByte shell = .error .waiting shell := by
  rw [readByte, empty]

theorem readByte_cons {c : Byte} {input : List Byte}
    (next : shell.input = c :: input) :
    readByte shell = .ok c { shell with input := input } := by
  rw [readByte, next]

/-- Reading one more byte. -/
theorem editsOrWaits_readByte {next : Byte → ShellExec Unit}
    (edits : ∀ c, EditsOrWaits buffer (next c)) :
    EditsOrWaits buffer (readByte >>= next) := by
  intro shell editing
  cases input : shell.input with
  | nil =>
      right
      exact
        ⟨shell, bind_of_error (readByte_waiting input), editing.recorded⟩
  | cons c rest =>
      rw [bind_of_ok (readByte_cons input)]
      rcases edits c _ (editing.withInput rest) with
        ⟨after, runs, afterEditing, shorter⟩ | waits
      · left
        exact
          ⟨after, runs, afterEditing,
            shorter.trans (Nat.le_succ rest.length)⟩
      · right
        exact waits

theorem edits_bracketKey (c : Byte) : Edits buffer (bracketKey c) := by
  rw [bracketKey]
  split_ifs
  · exact edits_historyNext .prev
  · exact edits_historyNext .next
  · exact edits_moveRight
  · exact edits_moveLeft
  · exact edits_moveHome
  · exact edits_moveEnd
  · exact edits_pure

/-- An escape sequence is complete or waits for its next byte. -/
theorem escapeSequence_spec : EditsOrWaits buffer escapeSequence := by
  rw [escapeSequence]
  apply editsOrWaits_readByte
  intro seq0
  apply editsOrWaits_readByte
  intro seq1
  by_cases bracket : seq0 = 0x5b
  · rw [if_pos bracket]
    by_cases digit : 0x30 ≤ seq1 ∧ seq1 ≤ 0x39
    · rw [if_pos digit]
      apply editsOrWaits_readByte
      intro seq2
      split_ifs
      · exact edits_delete.orWaits
      · exact edits_pure.orWaits
    · rw [if_neg digit]
      exact (edits_bracketKey seq1).orWaits
  · rw [if_neg bracket]
    split_ifs
    · exact edits_moveHome.orWaits
    · exact edits_moveEnd.orWaits
    · exact edits_pure.orWaits
    · exact edits_pure.orWaits

end NopOS.Shell.EditorCommands
