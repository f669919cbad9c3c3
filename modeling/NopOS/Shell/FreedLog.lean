import NopOS.Shell.Linenoise

/-!
# What the commands of the shell leave alone

The history is kept beside the line, so that its commands leave the line as it
is.  The account of the freed lines is written by the loop of `main` alone, so
that everything which `linenoise` does leaves it as it is.
-/

namespace NopOS.Shell.FreedLog

open NopOS.Lib.StatefulProgram
open NopOS.Heap.MallocPool
open NopOS.Heap.HeapRuns
open NopOS.Shell.Linenoise

/-! ## The commands of the history -/

/-- The view shows nothing of the heap, of its account and of the history. -/
def BesideHistory {View : Type} (view : Machine → View) : Prop :=
  ∀ shell pool history slots historyLen strings calls,
    view
        { shell with
          pool := pool
          history := history
          slots := slots
          historyLen := historyLen
          strings := strings
          calls := calls } =
      view shell

/-- The line which is edited. -/
theorem line_besideHistory : BesideHistory Machine.line :=
  fun _ _ _ _ _ _ _ => rfl

/-- The account of the freed lines. -/
theorem freed_besideHistory : BesideHistory Machine.freed :=
  fun _ _ _ _ _ _ _ => rfl

section History

variable {View : Type} {view : Machine → View}

/-- A slot is read without any change. -/
theorem leaves_readSlot (i : Int) : Leaves view (readSlot i) :=
  Leaves.get.bind fun _ => (Leaves.pure _).ite (Leaves.throw _)

theorem leaves_isDuplicate (line : List Byte) :
    Leaves view (isDuplicate line) := by
  apply Leaves.get.bind
  intro shell
  exact (Leaves.pure _).ite ((leaves_readSlot _).bind fun _ => Leaves.pure _)

variable (beside : BesideHistory view)
include beside

/-- A call to the heap changes the pool and the account of the calls. -/
theorem leaves_heap (call : HeapCall) : Leaves view (heap call) := by
  intro shell
  rw [heap]
  cases call.perform shell.pool with
  | ok rv pool => exact beside shell pool _ _ _ _ _
  | error fault pool => exact beside shell pool _ _ _ _ _

theorem leaves_writeSlot (i : Int) (value : Pointer) :
    Leaves view (writeSlot i value) := by
  apply Leaves.ite
  · apply Leaves.modify
    intro shell
    exact beside shell _ _ _ _ _ _
  · exact Leaves.throw _

theorem leaves_setHistoryLen (value : Int) :
    Leaves view (setHistoryLen value) := by
  apply Leaves.modify
  intro shell
  exact beside shell _ _ _ _ _ _

theorem leaves_strdup (line : List Byte) : Leaves view (strdup line) := by
  apply (leaves_heap beside _).bind
  intro ns
  apply (Leaves.modify _).bind
  · intro _
    exact Leaves.pure ns
  · intro shell
    exact beside shell _ _ _ _ _ _

/-- The array of the history is allocated beside the view. -/
theorem leaves_historyInit : Leaves view historyInit := by
  apply Leaves.get.bind
  intro shell
  apply Leaves.ite
  · apply (leaves_heap beside _).bind
    intro array
    apply Leaves.modify
    intro state
    exact beside state _ _ _ _ _ _
  · exact Leaves.pure ()

/-- The oldest line is released beside the view. -/
theorem leaves_dropOldest : Leaves view dropOldest := by
  apply Leaves.get.bind
  intro shell
  apply Leaves.ite
  · apply (leaves_readSlot _).bind
    intro oldest
    apply (leaves_heap beside _).bind
    intro _
    apply Leaves.bind
    · apply Leaves.modify
      intro state
      exact beside state _ _ _ _ _ _
    · intro _
      exact leaves_setHistoryLen beside _
  · exact Leaves.pure ()

/-- A line is added to the history beside the view. -/
theorem leaves_historyAdd (line : List Byte) :
    Leaves view (linenoiseHistoryAdd line) := by
  apply (leaves_historyInit beside).bind
  intro _
  apply Leaves.get.bind
  intro shell
  apply (Leaves.pure _).ite
  apply (leaves_isDuplicate line).bind
  intro duplicate
  apply (Leaves.pure _).ite
  apply (leaves_strdup beside line).bind
  intro linecopy
  apply (Leaves.pure _).ite
  apply (leaves_dropOldest beside).bind
  intro _
  apply Leaves.get.bind
  intro full
  apply (leaves_writeSlot beside full.historyLen linecopy).bind
  intro _
  exact (leaves_setHistoryLen beside _).bind fun _ => Leaves.pure _

/-- The latest line of the history is dropped beside the view. -/
theorem leaves_dropLatest : Leaves view dropLatest := by
  apply Leaves.get.bind
  intro shell
  apply (leaves_setHistoryLen beside _).bind
  intro _
  apply (leaves_readSlot _).bind
  intro latest
  exact (leaves_heap beside _).bind fun _ => Leaves.pure ()

end History

/-! ## The commands of the editor -/

theorem leaves_readByte : Leaves Machine.freed readByte := by
  intro shell
  rw [readByte]
  cases shell.input with
  | nil => rfl
  | cons c input => rfl

theorem leaves_setLine (line : LinenoiseState) :
    Leaves Machine.freed (setLine line) :=
  Leaves.modify fun _ => rfl

theorem leaves_lineString : Leaves Machine.freed lineString := by
  apply Leaves.get.bind
  intro shell
  cases cString shell.line.buf 0 4096 with
  | none => exact Leaves.throw _
  | some string => exact Leaves.pure string

theorem leaves_abAppend (ab : Abuf) (s : List Byte) :
    Leaves Machine.freed (abAppend ab s) :=
  (leaves_heap freed_besideHistory _).bind fun _ =>
    (Leaves.pure _).ite (Leaves.pure _)

theorem leaves_abFree (ab : Abuf) : Leaves Machine.freed (abFree ab) :=
  (leaves_heap freed_besideHistory _).bind fun _ => Leaves.pure ()

theorem leaves_scrollLoop
    (plen cols fuel : Nat) (window : Nat × Nat × Nat) :
    Leaves Machine.freed (scrollLoop plen cols fuel window) := by
  induction fuel generalizing window with
  | zero => exact Leaves.throw _
  | succ fuel induction => exact (induction _).ite (Leaves.pure _)

theorem leaves_shortenLoop (plen cols fuel len : Nat) :
    Leaves Machine.freed (shortenLoop plen cols fuel len) := by
  induction fuel generalizing len with
  | zero => exact Leaves.throw _
  | succ fuel induction => exact (induction _).ite (Leaves.pure _)

/-- A refresh uses the heap and the console. -/
theorem leaves_refreshLine : Leaves Machine.freed refreshLine := by
  apply Leaves.get.bind
  intro shell
  apply (leaves_scrollLoop _ _ _ _).bind
  rintro ⟨buf, len, pos⟩
  apply (leaves_shortenLoop _ _ _ _).bind
  intro len
  apply (leaves_abAppend _ _).bind
  intro ab
  apply (leaves_abAppend _ _).bind
  intro ab
  apply (leaves_abAppend _ _).bind
  intro ab
  apply (leaves_abAppend _ _).bind
  intro ab
  exact (leaves_abAppend _ _).bind fun ab => leaves_abFree ab

/-- A change of the line which is shown. -/
theorem leaves_shown (line : LinenoiseState) :
    Leaves Machine.freed (do setLine line; refreshLine) :=
  (leaves_setLine line).bind fun _ => leaves_refreshLine

theorem leaves_insert (c : Byte) :
    Leaves Machine.freed (linenoiseEditInsert c) := by
  apply Leaves.get.bind
  intro shell
  apply Leaves.ite
  · apply Leaves.ite
    · apply (leaves_setLine _).bind
      intro _
      exact
        (Leaves.pure _).ite (leaves_refreshLine.bind fun _ => Leaves.pure _)
    · apply (leaves_setLine _).bind
      intro _
      exact leaves_refreshLine.bind fun _ => Leaves.pure _
  · exact Leaves.pure _

theorem leaves_moveTo (pos : Nat) : Leaves Machine.freed (moveTo pos) :=
  Leaves.get.bind fun _ => leaves_shown _

theorem leaves_moveLeft : Leaves Machine.freed linenoiseEditMoveLeft :=
  Leaves.get.bind fun _ => (leaves_moveTo _).ite (Leaves.pure ())

theorem leaves_moveRight : Leaves Machine.freed linenoiseEditMoveRight :=
  Leaves.get.bind fun _ => (leaves_moveTo _).ite (Leaves.pure ())

theorem leaves_moveHome : Leaves Machine.freed linenoiseEditMoveHome :=
  Leaves.get.bind fun _ => (leaves_moveTo _).ite (Leaves.pure ())

theorem leaves_moveEnd : Leaves Machine.freed linenoiseEditMoveEnd :=
  Leaves.get.bind fun _ => (leaves_moveTo _).ite (Leaves.pure ())

theorem leaves_delete : Leaves Machine.freed linenoiseEditDelete :=
  Leaves.get.bind fun _ => (leaves_shown _).ite (Leaves.pure ())

theorem leaves_backspace : Leaves Machine.freed linenoiseEditBackspace :=
  Leaves.get.bind fun _ => (leaves_shown _).ite (Leaves.pure ())

theorem leaves_deletePrevWord :
    Leaves Machine.freed linenoiseEditDeletePrevWord :=
  Leaves.get.bind fun _ => leaves_shown _

theorem leaves_swapCharacters : Leaves Machine.freed swapCharacters :=
  Leaves.get.bind fun _ => (leaves_shown _).ite (Leaves.pure ())

theorem leaves_deleteLine : Leaves Machine.freed deleteLine :=
  Leaves.get.bind fun _ => leaves_shown _

theorem leaves_deleteToEnd : Leaves Machine.freed deleteToEnd :=
  Leaves.get.bind fun _ => leaves_shown _

theorem leaves_showHistory : Leaves Machine.freed showHistory := by
  apply Leaves.get.bind
  intro shell
  apply (leaves_readSlot _).bind
  intro entry
  apply (leaves_setLine _).bind
  intro _
  apply leaves_lineString.bind
  intro string
  exact Leaves.get.bind fun _ => leaves_shown _

theorem leaves_historyNext (dir : Direction) :
    Leaves Machine.freed (linenoiseEditHistoryNext dir) := by
  apply Leaves.get.bind
  intro shell
  apply Leaves.ite
  · apply (leaves_readSlot _).bind
    intro old
    apply (leaves_heap freed_besideHistory _).bind
    intro _
    apply leaves_lineString.bind
    intro string
    apply (leaves_strdup freed_besideHistory _).bind
    intro copy
    apply (leaves_writeSlot freed_besideHistory _ _).bind
    intro _
    apply (leaves_setLine _).ite
    apply (leaves_setLine _).ite
    exact (leaves_setLine _).bind fun _ => leaves_showHistory
  · exact Leaves.pure ()

/-! ## Keys and lines -/

theorem leaves_bracketKey (c : Byte) : Leaves Machine.freed (bracketKey c) := by
  apply (leaves_historyNext _).ite
  apply (leaves_historyNext _).ite
  apply leaves_moveRight.ite
  apply leaves_moveLeft.ite
  apply leaves_moveHome.ite
  exact leaves_moveEnd.ite (Leaves.pure ())

theorem leaves_escapeSequence : Leaves Machine.freed escapeSequence := by
  apply leaves_readByte.bind
  intro seq0
  apply leaves_readByte.bind
  intro seq1
  apply Leaves.ite
  · apply Leaves.ite
    · apply leaves_readByte.bind
      intro seq2
      exact leaves_delete.ite (Leaves.pure ())
    · exact leaves_bracketKey seq1
  · apply Leaves.ite
    · apply leaves_moveHome.ite
      exact leaves_moveEnd.ite (Leaves.pure ())
    · exact Leaves.pure ()

/-- A command after which the loop of the editor goes on. -/
theorem leaves_goesOn
    {command : ShellExec Unit} (leaves : Leaves Machine.freed command) :
    Leaves Machine.freed (do command; return (none : Option Int)) :=
  leaves.bind fun _ => Leaves.pure none

/-- Whatever the key, no line is noted as freed. -/
theorem leaves_handleKey (c : Byte) : Leaves Machine.freed (handleKey c) := by
  rw [handleKey]
  cases keyAction c with
  | enter =>
      apply (leaves_dropLatest freed_besideHistory).bind
      intro _
      exact Leaves.get.bind fun _ => Leaves.pure _
  | ctrlC => exact Leaves.pure _
  | backspace => exact leaves_goesOn leaves_backspace
  | ctrlD =>
      apply Leaves.get.bind
      intro shell
      apply Leaves.ite
      · exact leaves_goesOn leaves_delete
      · exact
          (leaves_dropLatest freed_besideHistory).bind fun _ => Leaves.pure _
  | ctrlT => exact leaves_goesOn leaves_swapCharacters
  | ctrlB => exact leaves_goesOn leaves_moveLeft
  | ctrlF => exact leaves_goesOn leaves_moveRight
  | ctrlP => exact leaves_goesOn (leaves_historyNext _)
  | ctrlN => exact leaves_goesOn (leaves_historyNext _)
  | esc => exact leaves_goesOn leaves_escapeSequence
  | ctrlU => exact leaves_goesOn leaves_deleteLine
  | ctrlK => exact leaves_goesOn leaves_deleteToEnd
  | ctrlA => exact leaves_goesOn leaves_moveHome
  | ctrlE => exact leaves_goesOn leaves_moveEnd
  | ctrlL => exact leaves_goesOn leaves_refreshLine
  | ctrlW => exact leaves_goesOn leaves_deletePrevWord
  | other => exact (leaves_insert c).bind fun _ => Leaves.pure _

/-- No key of an edit releases a line of the shell. -/
theorem leaves_editLoop (fuel : Nat) : Leaves Machine.freed (editLoop fuel) := by
  induction fuel with
  | zero => exact Leaves.throw _
  | succ fuel induction =>
      apply leaves_readByte.bind
      intro c
      apply (leaves_handleKey c).bind
      rintro (- | value)
      · exact induction
      · exact Leaves.pure value

/-- No line is noted as freed while one is edited. -/
theorem leaves_linenoise (frame : Nat → Byte) (prompt : List Byte) :
    Leaves Machine.freed (linenoise frame prompt) := by
  apply Leaves.bind
  · apply (Leaves.pure _).ite
    apply (leaves_setLine _).bind
    intro _
    apply (leaves_historyAdd freed_besideHistory _).bind
    intro _
    apply (Leaves.pure _).ite
    exact Leaves.get.bind fun _ => leaves_editLoop _
  · intro count
    apply (Leaves.pure _).ite
    apply leaves_lineString.bind
    intro string
    exact leaves_strdup freed_besideHistory string

end NopOS.Shell.FreedLog
