import NopOS.Lib.TextCursor
import NopOS.Shell.ShellRuns

/-!
# What the editing commands do to the text

The line of the editor is a text with a cursor, kept in a terminated buffer.
Every command is an operation on that text, and leaves the invariant of the
edit as it was.
-/

namespace NopOS.Shell.EditorText

open NopOS.Lib.ByteRange
open NopOS.Lib.IndexedBuffer
open NopOS.Lib.StatefulProgram
open NopOS.Lib.TextCursor
open NopOS.Heap.HeapRuns
open NopOS.Shell.Linenoise
open NopOS.Shell.EditorHeap
open NopOS.Shell.EditorCommands

/-- The line holds the text, and the cursor is where it should be. -/
structure Shows (l : LinenoiseState) (cursor : Cursor Byte) : Prop where
  pos : l.pos = cursor.behind.length
  len : l.len = cursor.text.length
  held : Holds l.buf 0 (cursor.text ++ [0])

/-- A command which changes the text, reads nothing and keeps the invariant. -/
def Applies
    (buffer : Buffer) (command : ShellExec Unit)
    (change : Cursor Byte → Cursor Byte) : Prop :=
  ∀ shell cursor, Editing buffer shell → Shows shell.line cursor →
    ∃ after,
      command shell = .ok () after ∧
        Editing buffer after ∧
        Shows after.line (change cursor) ∧ after.input = shell.input

variable {buffer : Buffer} {shell : Machine} {cursor : Cursor Byte}

/-! ## Refreshes -/

theorem applies_refreshLine : Applies buffer refreshLine id := by
  intro shell cursor editing shows
  rcases refreshLine_spec editing.inBuffer editing.line with
    ⟨after, runs, inBuffer, follows⟩
  refine ⟨after, runs, editing.follow follows inBuffer, ?_, follows.input⟩
  rw [follows.line]
  exact shows

theorem applies_pure : Applies buffer (pure ()) id := by
  intro shell cursor editing shows
  exact ⟨shell, rfl, editing, shows, rfl⟩

/-- A line that shows a text has its invariant. -/
theorem Shows.lineOk
    {l : LinenoiseState} {buf : Nat → Byte}
    (lineOk : LineOk l)
    (short : cursor.text.length ≤ 4095)
    (held : Holds buf 0 (cursor.text ++ [0])) :
    LineOk
      { l with
        buf := buf
        pos := cursor.behind.length
        len := cursor.text.length } := by
  have terminated : buf cursor.text.length = 0 := by
    have last := (holds_cons.mp (holds_append.mp held).2).1
    rwa [Nat.zero_add] at last
  apply lineOk.changed
  · rw [Cursor.length_text]
    exact Nat.le_add_right _ _
  · exact short
  · exact terminated

/-- A new text is shown. -/
theorem Editing.shows
    {buf : Nat → Byte} {pos len : Nat}
    (cursor : Cursor Byte)
    (editing : Editing buffer shell)
    (posEq : pos = cursor.behind.length)
    (lenEq : len = cursor.text.length)
    (short : cursor.text.length ≤ 4095)
    (held : Holds buf 0 (cursor.text ++ [0])) :
    ∃ after,
      (setLine { shell.line with buf := buf, pos := pos, len := len } >>=
          fun _ => refreshLine) shell =
        .ok () after ∧
        Editing buffer after ∧
        Shows after.line cursor ∧ after.input = shell.input := by
  subst posEq lenEq
  have lineOk := Shows.lineOk editing.line short held
  have set :
      setLine
          { shell.line with
            buf := buf
            pos := cursor.behind.length
            len := cursor.text.length } shell =
        .ok ()
          { shell with
            line :=
              { shell.line with
                buf := buf
                pos := cursor.behind.length
                len := cursor.text.length } } := rfl
  rw [bind_of_ok set]
  exact
    applies_refreshLine _ cursor (editing.withLine lineOk) ⟨rfl, rfl, held⟩

/-! ## Moves -/

section Moves

variable (editing : Editing buffer shell) (shows : Shows shell.line cursor)

include editing shows

theorem Shows.length_le : cursor.text.length ≤ 4095 := by
  rw [← shows.len]
  exact editing.line.len_le

/-- The cursor is put elsewhere in the same text. -/
theorem Shows.moveTo
    {other : Cursor Byte}
    (same : other.text = cursor.text) :
    ∃ after,
      moveTo other.behind.length shell = .ok () after ∧
        Editing buffer after ∧
        Shows after.line other ∧ after.input = shell.input := by
  have held := shows.held
  have short := shows.length_le editing
  rw [← same] at held short
  have len : shell.line.len = other.text.length := by
    rw [shows.len, same]
  rw [Linenoise.moveTo, bind_of_ok (get_run shell)]
  exact Editing.shows other editing rfl len short held

end Moves

theorem applies_moveLeft :
    Applies buffer linenoiseEditMoveLeft Cursor.moveBack := by
  intro shell cursor editing shows
  have posLe := editing.line.pos_le
  have lenLe := editing.line.len_le
  rw [linenoiseEditMoveLeft, bind_of_ok (get_run shell)]
  rcases cursor with ⟨- | ⟨item, behind⟩, ahead⟩
  · have pos : shell.line.pos = 0 := shows.pos
    rw [if_neg (by omega)]
    exact applies_pure shell _ editing shows
  · have pos : shell.line.pos = behind.length + 1 := shows.pos
    have less : sizeSub shell.line.pos 1 = behind.length := by
      rw [sizeSub_eq (by omega) (by omega)]
      omega
    rw [if_pos (by omega), less]
    exact shows.moveTo editing Cursor.text_moveBack

theorem applies_moveRight :
    Applies buffer linenoiseEditMoveRight Cursor.moveForward := by
  intro shell cursor editing shows
  have pos := shows.pos
  have len := shows.len
  rw [Cursor.length_text] at len
  rw [linenoiseEditMoveRight, bind_of_ok (get_run shell)]
  rcases cursor with ⟨behind, - | ⟨item, ahead⟩⟩
  · rw [if_neg (by rw [pos, len]; simp)]
    exact applies_pure shell _ editing shows
  · rw [if_pos (by rw [pos, len]; simp), pos]
    exact shows.moveTo editing Cursor.text_moveForward

theorem applies_moveHome :
    Applies buffer linenoiseEditMoveHome Cursor.moveToStart := by
  intro shell cursor editing shows
  have pos := shows.pos
  rw [linenoiseEditMoveHome, bind_of_ok (get_run shell)]
  by_cases moves : shell.line.pos ≠ 0
  · rw [if_pos moves]
    exact shows.moveTo editing Cursor.text_moveToStart
  · rw [if_neg moves]
    have start : cursor.moveToStart = cursor := by
      rcases cursor with ⟨- | ⟨item, behind⟩, ahead⟩
      · rfl
      · rw [not_not, pos] at moves
        cases moves
    rw [start]
    exact applies_pure shell _ editing shows

theorem applies_moveEnd :
    Applies buffer linenoiseEditMoveEnd Cursor.moveToEnd := by
  intro shell cursor editing shows
  have pos := shows.pos
  have len := shows.len
  rw [linenoiseEditMoveEnd, bind_of_ok (get_run shell)]
  by_cases moves : shell.line.pos ≠ shell.line.len
  · have last : shell.line.len = cursor.moveToEnd.behind.length := by
      rw [len, Cursor.moveToEnd, List.length_reverse]
    rw [if_pos moves, last]
    exact shows.moveTo editing Cursor.text_moveToEnd
  · rw [if_neg moves]
    have ends : cursor.moveToEnd = cursor := by
      rcases cursor with ⟨behind, - | ⟨item, ahead⟩⟩
      · simp [Cursor.moveToEnd, Cursor.text]
      · rw [not_not, pos, len, Cursor.length_text, List.length_cons] at moves
        omega
    rw [ends]
    exact applies_pure shell _ editing shows

/-! ## Changes of the text -/

/-- The line with its contents cut at the cursor. -/
theorem Shows.parts
    {l : LinenoiseState}
    (shows : Shows l cursor) :
    Holds l.buf 0 cursor.behind.reverse ∧
      Holds l.buf cursor.behind.length cursor.ahead ∧
        Holds l.buf cursor.text.length [0] := by
  have held := shows.held
  rw [Cursor.text, holds_append, holds_append, List.length_append,
    List.length_reverse, Nat.zero_add] at held
  refine ⟨held.1.1, held.1.2, ?_⟩
  rw [Cursor.length_text, ← Nat.zero_add (_ + _)]
  exact held.2

/-- A text is held if its parts are. -/
theorem holds_parts
    {buf : Nat → Byte}
    (behind : Holds buf 0 cursor.behind.reverse)
    (ahead : Holds buf cursor.behind.length cursor.ahead)
    (last : Holds buf cursor.text.length [0]) :
    Holds buf 0 (cursor.text ++ [0]) := by
  rw [Cursor.length_text] at last
  rw [Cursor.text, holds_append, holds_append, List.length_append,
    List.length_reverse, Nat.zero_add, Nat.zero_add]
  exact ⟨⟨behind, ahead⟩, last⟩

theorem length_mk (behind ahead : List Byte) :
    (Cursor.mk behind ahead).text.length = behind.length + ahead.length :=
  Cursor.length_text

/-- A character, unless the line is full. -/
def typed (c : Byte) (cursor : Cursor Byte) : Cursor Byte :=
  if cursor.text.length < 4095 then cursor.insert c else cursor

theorem applies_delete :
    Applies buffer linenoiseEditDelete Cursor.deleteAhead := by
  intro shell cursor editing shows
  have lenLe := editing.line.len_le
  rcases shows.parts with ⟨heldBehind, heldAhead, -⟩
  rw [linenoiseEditDelete, bind_of_ok (get_run shell)]
  dsimp only
  rcases cursor with ⟨behind, - | ⟨item, ahead⟩⟩
  · have pos : shell.line.pos = behind.length := shows.pos
    have len : shell.line.len = behind.length := by
      rw [shows.len, Cursor.length_text]
      rfl
    rw [if_neg (by omega)]
    exact applies_pure shell _ editing shows
  · have pos : shell.line.pos = behind.length := shows.pos
    have len : shell.line.len = behind.length + (ahead.length + 1) := by
      rw [shows.len, Cursor.length_text]
      rfl
    have count :
        sizeSub (sizeSub shell.line.len shell.line.pos) 1 = ahead.length := by
      rw [sizeSub, sizeSub]
      omega
    have less : sizeSub shell.line.len 1 = behind.length + ahead.length := by
      rw [sizeSub]
      omega
    have heldRest : Holds shell.line.buf (behind.length + 1) ahead :=
      (holds_cons.mp heldAhead).2
    have within :
        0 + behind.reverse.length ≤ behind.length + ahead.length := by
      rw [List.length_reverse]
      omega
    rw [if_pos (by omega), count, less, pos]
    apply Editing.shows ⟨behind, ahead⟩ editing rfl
    · exact (length_mk behind ahead).symm
    · rw [length_mk]
      omega
    · apply holds_parts
      · apply holds_update_of_apart
        · apply holds_moved_of_apart heldBehind
          left
          rw [List.length_reverse, Nat.zero_add]
        · exact Or.inr within
      · apply holds_update_of_apart
        · exact holds_moved behind.length heldRest
        · right
          exact Nat.le_refl _
      · rw [length_mk]
        exact holds_update_self _ _ _

theorem applies_backspace :
    Applies buffer linenoiseEditBackspace Cursor.deleteBehind := by
  intro shell cursor editing shows
  have lenLe := editing.line.len_le
  rcases shows.parts with ⟨heldBehind, heldAhead, -⟩
  rw [linenoiseEditBackspace, bind_of_ok (get_run shell)]
  dsimp only
  rcases cursor with ⟨- | ⟨item, behind⟩, ahead⟩
  · have pos : shell.line.pos = 0 := shows.pos
    rw [if_neg (by omega)]
    exact applies_pure shell _ editing shows
  · have pos : shell.line.pos = behind.length + 1 := shows.pos
    have len : shell.line.len = behind.length + 1 + ahead.length := by
      rw [shows.len, Cursor.length_text]
      rfl
    have count : sizeSub shell.line.len shell.line.pos = ahead.length := by
      rw [sizeSub]
      omega
    have back : sizeSub shell.line.pos 1 = behind.length := by
      rw [sizeSub]
      omega
    have less : sizeSub shell.line.len 1 = behind.length + ahead.length := by
      rw [sizeSub]
      omega
    have heldRest : Holds shell.line.buf 0 behind.reverse := by
      rw [List.reverse_cons] at heldBehind
      exact (holds_append.mp heldBehind).1
    have within :
        0 + behind.reverse.length ≤ behind.length + ahead.length := by
      rw [List.length_reverse]
      omega
    rw [if_pos (by omega), count, back, less, pos]
    apply Editing.shows ⟨behind, ahead⟩ editing rfl
    · exact (length_mk behind ahead).symm
    · rw [length_mk]
      omega
    · apply holds_parts
      · apply holds_update_of_apart
        · apply holds_moved_of_apart heldRest
          left
          rw [List.length_reverse, Nat.zero_add]
        · exact Or.inr within
      · apply holds_update_of_apart
        · exact holds_moved behind.length heldAhead
        · right
          exact Nat.le_refl _
      · rw [length_mk]
        exact holds_update_self _ _ _

/-- The loop over the bytes before the cursor. -/
theorem backWhile_eq
    {buf : Nat → Byte} {behind : List Byte}
    (test : Byte → Bool)
    (held : Holds buf 0 behind.reverse) :
    backWhile test buf behind.length = (behind.dropWhile test).length := by
  induction behind with
  | nil => rfl
  | cons item behind induction =>
      rw [List.reverse_cons, holds_append, List.length_reverse,
        Nat.zero_add] at held
      have first : buf behind.length = item := (holds_cons.mp held.2).1
      rw [List.length_cons, backWhile, first, List.dropWhile_cons]
      split
      · exact induction held.1
      · rfl

/-- A suffix of the list before the cursor is held too. -/
theorem holds_of_suffix
    {buf : Nat → Byte} {behind less : List Byte}
    (held : Holds buf 0 behind.reverse)
    (suffix : less <:+ behind) :
    Holds buf 0 less.reverse := by
  rcases suffix with ⟨dropped, rfl⟩
  rw [List.reverse_append, holds_append] at held
  exact held.1

/-- The character that separates words. -/
def blank (c : Byte) : Bool := c = 0x20

/-- The word before the cursor is deleted, whatever blanks follow it. -/
theorem applies_deletePrevWord :
    Applies buffer linenoiseEditDeletePrevWord (Cursor.deleteWord blank) := by
  intro shell cursor editing shows
  have lenLe := editing.line.len_le
  have pos := shows.pos
  have len := shows.len
  rcases shows.parts with ⟨heldBehind, heldAhead, heldLast⟩
  have blanksSuffix := cursor.behind.dropWhile_suffix blank
  have wordSuffix :=
    (cursor.behind.dropWhile blank).dropWhile_suffix fun c => !blank c
  have heldBlanks := holds_of_suffix heldBehind blanksSuffix
  have heldWord := holds_of_suffix heldBlanks wordSuffix
  have shorter := wordSuffix.length_le.trans blanksSuffix.length_le
  have blanks :
      backWhile (· = 0x20) shell.line.buf shell.line.pos =
        (cursor.behind.dropWhile blank).length := by
    rw [pos]
    exact backWhile_eq blank heldBehind
  have word :
      backWhile (· ≠ 0x20) shell.line.buf
          (cursor.behind.dropWhile blank).length =
        (cursor.deleteWord blank).behind.length := by
    have same : (fun c : Byte => decide (c ≠ 0x20)) = fun c => !blank c := by
      funext c
      exact decide_not
    rw [same]
    exact backWhile_eq _ heldBlanks
  rw [Cursor.length_text] at len
  rw [linenoiseEditDeletePrevWord, bind_of_ok (get_run shell)]
  have tail :
      sizeSub shell.line.len shell.line.pos + 1 =
        (cursor.ahead ++ [0]).length := by
    rw [sizeSub, pos, List.length_append, List.length_singleton]
    omega
  have diff :
      sizeSub shell.line.len
          (sizeSub shell.line.pos
            (cursor.deleteWord blank).behind.length) =
        (cursor.deleteWord blank).text.length := by
    rw [Cursor.length_text, sizeSub, sizeSub]
    change _ = (cursor.deleteWord blank).behind.length + cursor.ahead.length
    have least : (cursor.deleteWord blank).behind.length ≤
        cursor.behind.length := shorter
    omega
  have heldTail :
      Holds shell.line.buf cursor.behind.length (cursor.ahead ++ [0]) := by
    rw [holds_append, ← Cursor.length_text]
    exact ⟨heldAhead, heldLast⟩
  rw [blanks, word, tail, diff, pos]
  apply Editing.shows (cursor.deleteWord blank) editing rfl rfl
  · exact (Cursor.length_deleteWord blank).trans (shows.length_le editing)
  · rw [Cursor.text, List.append_assoc, holds_append, List.length_reverse,
      Nat.zero_add]
    constructor
    · apply holds_moved_of_apart heldWord
      left
      rw [List.length_reverse, Nat.zero_add]
      exact Nat.le_refl _
    · exact holds_moved _ heldTail

theorem applies_deleteLine :
    Applies buffer deleteLine fun _ => Cursor.empty := by
  intro shell cursor editing shows
  rw [deleteLine, bind_of_ok (get_run shell)]
  apply Editing.shows Cursor.empty editing rfl rfl
  · exact Nat.zero_le _
  · exact holds_update_self _ _ _

theorem applies_deleteToEnd :
    Applies buffer deleteToEnd Cursor.cutAhead := by
  intro shell cursor editing shows
  have pos := shows.pos
  have short := shows.length_le editing
  rcases shows.parts with ⟨heldBehind, -, -⟩
  rw [Cursor.length_text] at short
  rw [deleteToEnd, bind_of_ok (get_run shell), pos]
  apply Editing.shows cursor.cutAhead editing rfl
  · exact (length_mk cursor.behind []).symm
  · exact
      (length_mk cursor.behind []).trans_le (by rw [List.length_nil]; omega)
  · apply holds_parts
    · apply holds_update_of_apart heldBehind
      right
      rw [List.length_reverse, Nat.zero_add]
    · exact holds_nil
    · exact
        (length_mk cursor.behind []).symm ▸ holds_update_self _ _ _

/-- Ctrl-t swaps the character at the cursor with the one before. -/
theorem applies_swapCharacters :
    Applies buffer swapCharacters Cursor.swap := by
  intro shell cursor editing shows
  have lenLe := editing.line.len_le
  have short := shows.length_le editing
  rcases shows.parts with ⟨heldBehind, heldAhead, heldLast⟩
  rw [swapCharacters, bind_of_ok (get_run shell)]
  dsimp only
  rcases cursor with ⟨- | ⟨first, behind⟩, ahead⟩
  · have pos : shell.line.pos = 0 := shows.pos
    rw [if_neg (by omega)]
    exact applies_pure shell _ editing shows
  have pos : shell.line.pos = behind.length + 1 := shows.pos
  rcases ahead with - | ⟨second, ahead⟩
  · have len : shell.line.len = behind.length + 1 := by
      rw [shows.len, length_mk]
      rfl
    rw [if_neg (by omega)]
    exact applies_pure shell _ editing shows
  have len : shell.line.len = behind.length + 1 + (ahead.length + 1) := by
    rw [shows.len, length_mk]
    rfl
  rw [List.reverse_cons, holds_append, List.length_reverse,
    Nat.zero_add] at heldBehind
  rcases heldBehind with ⟨heldRest, heldFirst⟩
  rw [List.length_cons, holds_cons] at heldAhead
  rcases heldAhead with ⟨heldSecond, heldTail⟩
  have firstByte : shell.line.buf behind.length = first :=
    (holds_cons.mp heldFirst).1
  have before : sizeSub shell.line.pos 1 = behind.length := by
    rw [sizeSub]
    omega
  have last : sizeSub shell.line.len 1 = behind.length + 1 + ahead.length := by
    rw [sizeSub]
    omega
  rw [if_pos (by omega), before, last, pos, firstByte, heldSecond]
  -- the bytes beside the cursor change places
  have swapped :
      Holds
        (Function.update
          (Function.update shell.line.buf behind.length second)
          (behind.length + 1) first)
        0 (behind.reverse ++ second :: first :: ahead ++ [0]) := by
    rw [holds_append, holds_append, holds_cons, holds_cons,
      List.length_reverse, Nat.zero_add]
    refine ⟨⟨?_, ?_, ?_, ?_⟩, ?_⟩
    · apply holds_update_of_apart
      · apply holds_update_of_apart heldRest
        right
        rw [List.length_reverse, Nat.zero_add]
      · right
        rw [List.length_reverse, Nat.zero_add]
        exact Nat.le_succ _
    · rw [Function.update_of_ne (Nat.ne_of_lt (Nat.lt_succ_self _)),
        Function.update_self]
    · exact Function.update_self _ _ _
    · apply holds_update_of_apart
      · apply holds_update_of_apart heldTail
        left
        omega
      · left
        exact Nat.lt_succ_self _
    · rw [length_mk, List.length_cons, List.length_cons] at heldLast
      rw [Nat.zero_add, List.length_append, List.length_reverse,
        List.length_cons, List.length_cons]
      have place : behind.length + (ahead.length + 1 + 1) =
          behind.length + 1 + (ahead.length + 1) := by
        omega
      rw [place]
      apply holds_update_of_apart
      · apply holds_update_of_apart heldLast
        left
        omega
      · left
        omega
  have size : (Cursor.mk (first :: behind) (second :: ahead)).swap.text.length =
      behind.length + 1 + (ahead.length + 1) := by
    rw [Cursor.length_swap, length_mk]
    rfl
  have fits : behind.length + 1 + (ahead.length + 1) ≤ 4095 := by omega
  rcases ahead with - | ⟨third, ahead⟩
  · rw [if_neg (by rw [List.length_nil]; omega)]
    apply Editing.shows (Cursor.mk (second :: behind) [first]) editing rfl
    · rw [len, ← size]
      rfl
    · exact size.trans_le fits
    · simpa [Cursor.text] using swapped
  · rw [if_pos (by rw [List.length_cons]; omega)]
    apply Editing.shows
      (Cursor.mk (first :: second :: behind) (third :: ahead)) editing rfl
    · rw [len, ← size]
      rfl
    · exact size.trans_le fits
    · simpa [Cursor.text] using swapped

/-! ## Insertion -/

/-- The text with one more character, and the terminator behind it. -/
theorem holds_inserted
    {buf : Nat → Byte}
    (c : Byte)
    (behind : Holds buf 0 cursor.behind.reverse)
    (ahead : Holds buf (cursor.behind.length + 1) cursor.ahead) :
    Holds
      (Function.update (Function.update buf cursor.behind.length c)
        (cursor.text.length + 1) 0)
      0 ((cursor.insert c).text ++ [0]) := by
  have size : (cursor.insert c).text.length = cursor.text.length + 1 := by
    rw [Cursor.length_text, Cursor.length_text]
    exact Nat.succ_add _ _
  have total :
      cursor.text.length = cursor.behind.length + cursor.ahead.length :=
    Cursor.length_text
  apply holds_parts
  · rw [Cursor.insert, List.reverse_cons, holds_append, List.length_reverse,
      Nat.zero_add]
    constructor
    · apply holds_update_of_apart
      · apply holds_update_of_apart behind
        right
        rw [List.length_reverse, Nat.zero_add]
      · right
        rw [List.length_reverse]
        omega
    · apply holds_update_of_apart
      · exact holds_update_self _ _ _
      · right
        rw [List.length_singleton]
        omega
  · apply holds_update_of_apart
    · apply holds_update_of_apart ahead
      left
      exact Nat.lt_succ_self _
    · right
      change cursor.behind.length + 1 + cursor.ahead.length ≤ _
      omega
  · rw [size]
    exact holds_update_self _ _ _

/-- A line which becomes longer is full at 4095 characters. -/
theorem typed_spec
    (c : Byte)
    (editing : Editing buffer shell)
    (shows : Shows shell.line cursor) :
    ∃ after,
      linenoiseEditInsert c shell = .ok 0 after ∧
        Editing buffer after ∧
        Shows after.line (typed c cursor) ∧ after.input = shell.input := by
  have buflen := editing.line.buflen
  have pos := shows.pos
  have len := shows.len
  have total :
      cursor.text.length = cursor.behind.length + cursor.ahead.length :=
    Cursor.length_text
  rcases shows.parts with ⟨heldBehind, heldAhead, -⟩
  rw [linenoiseEditInsert, bind_of_ok (get_run shell)]
  dsimp only
  by_cases full : ¬ cursor.text.length < 4095
  · rw [if_neg (by omega), typed, if_neg full]
    exact ⟨shell, rfl, editing, shows, rfl⟩
  rw [not_not] at full
  have size : (cursor.insert c).text.length = cursor.text.length + 1 := by
    rw [Cursor.length_text, Cursor.length_text]
    exact Nat.succ_add _ _
  have fits : (cursor.insert c).text.length ≤ 4095 := by omega
  rw [if_pos (by omega), typed, if_pos full]
  by_cases atEnd : shell.line.len = shell.line.pos
  · have nothing : cursor.ahead = [] := by
      apply List.eq_nil_of_length_eq_zero
      omega
    have held :
        Holds
          (Function.update (Function.update shell.line.buf shell.line.pos c)
            (shell.line.len + 1) 0)
          0 ((cursor.insert c).text ++ [0]) := by
      rw [pos, len]
      apply holds_inserted c heldBehind
      rw [nothing]
      exact holds_nil
    have posEq : shell.line.pos + 1 = (cursor.insert c).behind.length :=
      congrArg (· + 1) pos
    have lenEq : shell.line.len + 1 = (cursor.insert c).text.length := by
      rw [size, len]
    rw [if_pos atEnd]
    by_cases narrow :
        shell.line.plen + (shell.line.len + 1) < shell.line.cols
    · rw [if_pos narrow]
      -- one character is written, and nothing is refreshed
      have lineOk := Shows.lineOk editing.line fits held
      rw [← posEq, ← lenEq] at lineOk
      exact
        ⟨_, rfl, editing.withLine lineOk, ⟨posEq, lenEq, held⟩, rfl⟩
    · rcases Editing.shows (cursor.insert c) editing posEq lenEq fits held with
        ⟨after, runs, results⟩
      refine ⟨after, ?_, results⟩
      rw [if_neg narrow, ← bind_assoc, bind_of_ok runs]
      rfl
  · have count :
        sizeSub shell.line.len shell.line.pos = cursor.ahead.length := by
      rw [sizeSub]
      omega
    have held :
        Holds
          (Function.update
            (Function.update
              (memmove shell.line.buf (shell.line.pos + 1) shell.line.pos
                (sizeSub shell.line.len shell.line.pos))
              shell.line.pos c)
            (shell.line.len + 1) 0)
          0 ((cursor.insert c).text ++ [0]) := by
      rw [count, pos, len]
      apply holds_inserted c
      · apply holds_moved_of_apart heldBehind
        left
        rw [List.length_reverse, Nat.zero_add]
        exact Nat.le_succ _
      · exact holds_moved _ heldAhead
    have posEq : shell.line.pos + 1 = (cursor.insert c).behind.length :=
      congrArg (· + 1) pos
    have lenEq : shell.line.len + 1 = (cursor.insert c).text.length := by
      rw [size, len]
    rcases Editing.shows (cursor.insert c) editing posEq lenEq fits held with
      ⟨after, runs, results⟩
    refine ⟨after, ?_, results⟩
    rw [if_neg atEnd, ← bind_assoc, bind_of_ok runs]
    rfl

/-- There is no other entry to show. -/
theorem applies_historyNext (dir : Direction) :
    Applies buffer (linenoiseEditHistoryNext dir) id := by
  intro shell cursor editing shows
  have alone : ¬ shell.historyLen > 1 := by
    rw [editing.historyLen]
    decide
  rw [linenoiseEditHistoryNext, bind_of_ok (get_run shell), if_neg alone]
  exact applies_pure shell cursor editing shows

end NopOS.Shell.EditorText
