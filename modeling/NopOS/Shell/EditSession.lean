import NopOS.Shell.EditorText

/-!
# The editor as commands to one text

The bytes which are typed are commands to an editor of one text with a cursor.
The loop of `linenoiseEdit` does what the editor does, whatever is typed.
-/

namespace NopOS.Shell.EditSession

open NopOS.Lib.StatefulProgram
open NopOS.Lib.TextCursor
open NopOS.Heap.HeapRuns
open NopOS.Shell.Linenoise
open NopOS.Shell.EditorHeap
open NopOS.Shell.EditorCommands
open NopOS.Shell.EditorText
open NopOS.Shell.ShellRuns

/-! ## An editor of one text -/

/-- What a key does to the text. -/
inductive Change where
  | insert (c : Byte)
  | deleteBehind
  | deleteAhead
  | deleteWord
  | cutAhead
  | clear
  | swap
  | moveBack
  | moveForward
  | moveToStart
  | moveToEnd
  | nothing
deriving DecidableEq, Repr

/-- The text and the cursor after a change. -/
def Change.apply : Change → Cursor Byte → Cursor Byte
  | .insert c => typed c
  | .deleteBehind => Cursor.deleteBehind
  | .deleteAhead => Cursor.deleteAhead
  | .deleteWord => Cursor.deleteWord blank
  | .cutAhead => Cursor.cutAhead
  | .clear => fun _ => Cursor.empty
  | .swap => Cursor.swap
  | .moveBack => Cursor.moveBack
  | .moveForward => Cursor.moveForward
  | .moveToStart => Cursor.moveToStart
  | .moveToEnd => Cursor.moveToEnd
  | .nothing => id

/-- What the editor is asked to do. -/
inductive Command where
  | change (change : Change)
  | accept
  | leave
  /-- Ctrl-d leaves if there is no text. -/
  | deleteOrLeave
deriving DecidableEq, Repr

/-- How an edit ends: a text and the commands behind it, a user who leaves, or
no command left. -/
inductive Outcome where
  | accepted (text : List Byte) (rest : List Command)
  | left
  | waiting
deriving DecidableEq, Repr

/-- An edit of one line. -/
def edit : Cursor Byte → List Command → Outcome
  | _, [] => .waiting
  | cursor, .change change :: rest => edit (change.apply cursor) rest
  | cursor, .accept :: rest => .accepted cursor.text rest
  | _, .leave :: _ => .left
  | cursor, .deleteOrLeave :: rest =>
      if cursor.text = [] then .left else edit cursor.deleteAhead rest

/-- A text as a string. -/
def string (text : List Byte) : List Byte := text.takeWhile (· ≠ 0)

/-- The lines of a session, and whether the user has left it. -/
structure Session where
  lines : List (List Byte)
  left : Bool
deriving DecidableEq, Repr

/-- A line before those of the session. -/
def Session.add (line : List Byte) (session : Session) : Session where
  lines := line :: session.lines
  left := session.left

/-- Line after line, each edited from the empty text. -/
def session : Cursor Byte → List Command → Session
  | _, [] => ⟨[], false⟩
  | cursor, .change change :: rest => session (change.apply cursor) rest
  | cursor, .accept :: rest => (session .empty rest).add (string cursor.text)
  | _, .leave :: _ => ⟨[], true⟩
  | cursor, .deleteOrLeave :: rest =>
      if cursor.text = [] then ⟨[], true⟩ else session cursor.deleteAhead rest

/-- A session is one edit after the other. -/
theorem session_eq (cursor : Cursor Byte) (commands : List Command) :
    session cursor commands =
      match edit cursor commands with
      | .accepted text rest => (session .empty rest).add (string text)
      | .left => ⟨[], true⟩
      | .waiting => ⟨[], false⟩ := by
  induction commands generalizing cursor with
  | nil => rfl
  | cons command rest induction =>
      cases command with
      | change change => exact induction _
      | accept => rfl
      | leave => rfl
      | deleteOrLeave =>
          rw [session, edit]
          split
          · rfl
          · exact induction _

/-! ## The bytes of the commands -/

/-- The command of a key. -/
def keyCommand (c : Byte) : Command :=
  match keyAction c with
  | .enter => .accept
  | .ctrlC => .leave
  | .backspace => .change .deleteBehind
  | .ctrlD => .deleteOrLeave
  | .ctrlT => .change .swap
  | .ctrlB => .change .moveBack
  | .ctrlF => .change .moveForward
  | .ctrlP => .change .nothing
  | .ctrlN => .change .nothing
  | .esc => .change .nothing
  | .ctrlU => .change .clear
  | .ctrlK => .change .cutAhead
  | .ctrlA => .change .moveToStart
  | .ctrlE => .change .moveToEnd
  | .ctrlL => .change .nothing
  | .ctrlW => .change .deleteWord
  | .other => .change (.insert c)

/-- The last byte of a sequence of three. -/
def bracketChange (c : Byte) : Change :=
  if c = 0x43 then .moveForward
  else if c = 0x44 then .moveBack
  else if c = 0x48 then .moveToStart
  else if c = 0x46 then .moveToEnd
  else .nothing

/-- The change of an escape sequence of two bytes. -/
def sequenceChange (seq0 seq1 : Byte) : Change :=
  if seq0 = 0x5b then bracketChange seq1
  else if seq0 = 0x4f then
    if seq1 = 0x48 then .moveToStart
    else if seq1 = 0x46 then .moveToEnd
    else .nothing
  else .nothing

/-- The bytes of an escape sequence so far. -/
inductive Pending where
  | key
  | escape
  | second (seq0 : Byte)
  | third (seq1 : Byte)
deriving DecidableEq, Repr

/-- The commands of the bytes that are typed. -/
def decode : Pending → List Byte → List Command
  | _, [] => []
  | .key, c :: rest =>
      if keyAction c = .esc then decode .escape rest
      else keyCommand c :: decode .key rest
  | .escape, seq0 :: rest => decode (.second seq0) rest
  | .second seq0, seq1 :: rest =>
      if seq0 = 0x5b ∧ 0x30 ≤ seq1 ∧ seq1 ≤ 0x39 then
        decode (.third seq1) rest
      else .change (sequenceChange seq0 seq1) :: decode .key rest
  | .third seq1, seq2 :: rest =>
      .change (if seq2 = 0x7e ∧ seq1 = 0x33 then .deleteAhead else .nothing) ::
        decode .key rest

variable {buffer : Buffer} {shell : Machine} {cursor : Cursor Byte}

/-! ## Escape sequences -/

theorem applies_bracketKey (c : Byte) :
    Applies buffer (bracketKey c) (bracketChange c).apply := by
  rw [bracketKey, bracketChange]
  by_cases previous : c = 0x41
  · rw [if_pos previous, previous]
    exact applies_historyNext .prev
  rw [if_neg previous]
  by_cases next : c = 0x42
  · rw [if_pos next, next]
    exact applies_historyNext .next
  rw [if_neg next]
  split_ifs
  · exact applies_moveRight
  · exact applies_moveLeft
  · exact applies_moveHome
  · exact applies_moveEnd
  · exact applies_pure

/-- A sequence which has been read is one change, and else it is waited for. -/
def Sequence
    (buffer : Buffer) (cursor : Cursor Byte) (shell : Machine)
    (commands : List Command)
    (result : EStateM.Result Stop Machine Unit) : Prop :=
  (∃ after, result = .error .waiting after ∧ commands = []) ∨
    ∃ (change : Change) (after : Machine),
      result = .ok () after ∧
        Editing buffer after ∧
        Shows after.line (change.apply cursor) ∧
        commands = .change change :: decode .key after.input ∧
        after.input.length ≤ shell.input.length

/-- A command that follows a sequence is run on the bytes behind it. -/
theorem sequence_of_applies
    {command : ShellExec Unit} {change : Change}
    {input : List Byte}
    (applies : Applies buffer command change.apply)
    (editing : Editing buffer shell)
    (shows : Shows shell.line cursor)
    (shorter : input.length ≤ shell.input.length) :
    Sequence buffer cursor shell (.change change :: decode .key input)
      (command { shell with input := input }) := by
  rcases applies _ cursor (editing.withInput input) shows with
    ⟨after, runs, afterEditing, afterShows, sameInput⟩
  right
  refine ⟨change, after, runs, afterEditing, afterShows, ?_, ?_⟩
  · rw [sameInput]
  · rw [sameInput]
    exact shorter

/-- `escapeSequence` is what `decode` makes of the bytes behind the escape. -/
theorem sequence_escapeSequence
    (editing : Editing buffer shell)
    (shows : Shows shell.line cursor) :
    Sequence buffer cursor shell (decode .escape shell.input)
      (escapeSequence shell) := by
  rw [escapeSequence]
  rcases input : shell.input with - | ⟨seq0, - | ⟨seq1, rest⟩⟩
  · left
    exact ⟨shell, bind_of_error (readByte_waiting input), rfl⟩
  · left
    refine ⟨{ shell with input := [] }, ?_, rfl⟩
    rw [bind_of_ok (readByte_cons input)]
    exact bind_of_error (readByte_waiting rfl)
  have enough : rest.length ≤ shell.input.length := by
    rw [input, List.length_cons, List.length_cons]
    omega
  rw [bind_of_ok (readByte_cons input), bind_of_ok (readByte_cons rfl),
    decode, decode.eq_def]
  dsimp only
  by_cases bracket : seq0 = 0x5b
  · by_cases digit : 0x30 ≤ seq1 ∧ seq1 ≤ 0x39
    · rw [if_pos bracket, if_pos digit, if_pos ⟨bracket, digit⟩]
      rcases rest with - | ⟨seq2, rest⟩
      · left
        exact ⟨_, bind_of_error (readByte_waiting rfl), rfl⟩
      · have less : rest.length ≤ shell.input.length :=
          (Nat.le_succ _).trans enough
        rw [bind_of_ok (readByte_cons rfl), decode]
        split
        · exact sequence_of_applies applies_delete editing shows less
        · exact sequence_of_applies applies_pure editing shows less
    · have short : ¬ (seq0 = 0x5b ∧ 0x30 ≤ seq1 ∧ seq1 ≤ 0x39) :=
        fun both => digit both.2
      rw [if_pos bracket, if_neg digit, if_neg short, sequenceChange,
        if_pos bracket]
      exact
        sequence_of_applies (applies_bracketKey seq1) editing shows enough
  · have short : ¬ (seq0 = 0x5b ∧ 0x30 ≤ seq1 ∧ seq1 ≤ 0x39) :=
      fun both => bracket both.1
    rw [if_neg bracket, if_neg short, sequenceChange, if_neg bracket]
    split_ifs
    · exact sequence_of_applies applies_moveHome editing shows enough
    · exact sequence_of_applies applies_moveEnd editing shows enough
    · exact sequence_of_applies applies_pure editing shows enough
    · exact sequence_of_applies applies_pure editing shows enough

/-! ## Keys -/

theorem none_of_applies
    {command : ShellExec Unit} {change : Cursor Byte → Cursor Byte}
    (applies : Applies buffer command change)
    (editing : Editing buffer shell)
    (shows : Shows shell.line cursor) :
    ∃ after,
      (command >>= fun _ => (pure none : ShellExec (Option Int))) shell =
          .ok none after ∧
        Editing buffer after ∧
        Shows after.line (change cursor) ∧ after.input = shell.input := by
  rcases applies shell cursor editing shows with ⟨after, runs, results⟩
  exact ⟨after, bind_of_ok runs, results⟩

/-- A key that changes the text changes it as the editor does. -/
theorem handleKey_change
    {c : Byte} {change : Change}
    (plain : keyAction c ≠ .esc)
    (command : keyCommand c = .change change)
    (editing : Editing buffer shell)
    (shows : Shows shell.line cursor) :
    ∃ after,
      handleKey c shell = .ok none after ∧
        Editing buffer after ∧
        Shows after.line (change.apply cursor) ∧
        after.input = shell.input := by
  rw [keyCommand] at command
  rw [handleKey]
  cases action : keyAction c with
  | enter | ctrlC | ctrlD =>
      rw [action] at command
      cases command
  | esc => exact absurd action plain
  | other =>
      rw [action] at command
      cases command
      rcases typed_spec c editing shows with ⟨after, runs, results⟩
      refine ⟨after, ?_, results⟩
      change (linenoiseEditInsert c >>= _) shell = _
      rw [bind_of_ok runs]
      rfl
  | backspace =>
      rw [action] at command
      cases command
      exact none_of_applies applies_backspace editing shows
  | ctrlT =>
      rw [action] at command
      cases command
      exact none_of_applies applies_swapCharacters editing shows
  | ctrlB =>
      rw [action] at command
      cases command
      exact none_of_applies applies_moveLeft editing shows
  | ctrlF =>
      rw [action] at command
      cases command
      exact none_of_applies applies_moveRight editing shows
  | ctrlP =>
      rw [action] at command
      cases command
      exact none_of_applies (applies_historyNext .prev) editing shows
  | ctrlN =>
      rw [action] at command
      cases command
      exact none_of_applies (applies_historyNext .next) editing shows
  | ctrlU =>
      rw [action] at command
      cases command
      exact none_of_applies applies_deleteLine editing shows
  | ctrlK =>
      rw [action] at command
      cases command
      exact none_of_applies applies_deleteToEnd editing shows
  | ctrlA =>
      rw [action] at command
      cases command
      exact none_of_applies applies_moveHome editing shows
  | ctrlE =>
      rw [action] at command
      cases command
      exact none_of_applies applies_moveEnd editing shows
  | ctrlL =>
      rw [action] at command
      cases command
      exact none_of_applies applies_refreshLine editing shows
  | ctrlW =>
      rw [action] at command
      cases command
      exact none_of_applies applies_deletePrevWord editing shows

/-- Enter ends the edit and releases the history's copy. -/
theorem handleKey_accept
    {c : Byte}
    (command : keyCommand c = .accept)
    (editing : Editing buffer shell) :
    ∃ after,
      handleKey c shell = .ok (some shell.line.len) after ∧
        AtRest buffer after ∧
        after.line = shell.line ∧ after.input = shell.input := by
  have action : keyAction c = .enter := by
    rw [keyCommand] at command
    cases action : keyAction c with
    | enter => rfl
    | _ =>
        rw [action] at command
        cases command
  rcases dropLatest_spec editing with ⟨after, drops, atRest, line, input⟩
  refine ⟨after, ?_, atRest, line, input⟩
  rw [handleKey, action]
  change (dropLatest >>= _) shell = _
  rw [bind_of_ok drops, bind_of_ok (get_run after), line]
  rfl

/-- Ctrl-c leaves. -/
theorem handleKey_leave
    {c : Byte}
    (command : keyCommand c = .leave) :
    handleKey c shell = .ok (some (-1)) shell := by
  have action : keyAction c = .ctrlC := by
    rw [keyCommand] at command
    cases action : keyAction c with
    | ctrlC => rfl
    | _ =>
        rw [action] at command
        cases command
  rw [handleKey, action]
  rfl

/-- Ctrl-d leaves an empty line and deletes in another. -/
theorem handleKey_deleteOrLeave
    {c : Byte}
    (command : keyCommand c = .deleteOrLeave)
    (editing : Editing buffer shell)
    (shows : Shows shell.line cursor) :
    if cursor.text = [] then
      ∃ after, handleKey c shell = .ok (some (-1)) after
    else
      ∃ after,
        handleKey c shell = .ok none after ∧
          Editing buffer after ∧
          Shows after.line cursor.deleteAhead ∧
          after.input = shell.input := by
  have action : keyAction c = .ctrlD := by
    rw [keyCommand] at command
    cases action : keyAction c with
    | ctrlD => rfl
    | _ =>
        rw [action] at command
        cases command
  have len := shows.len
  rw [handleKey, action]
  dsimp only
  rw [bind_of_ok (get_run shell)]
  split
  case isTrue noText =>
    rw [noText, List.length_nil] at len
    rcases dropLatest_spec editing with ⟨after, drops, -⟩
    rw [if_neg (by omega), bind_of_ok drops]
    exact ⟨after, rfl⟩
  case isFalse someText =>
    have positive := List.length_pos_of_ne_nil someText
    rw [if_pos (by omega)]
    exact none_of_applies applies_delete editing shows

/-! ## The loop of `linenoiseEdit` -/

/-- What the outcome of an edit is for the machine. -/
def Ends
    (buffer : Buffer) (left : Nat)
    (result : EStateM.Result Stop Machine Int) : Outcome → Prop
  | .accepted text rest =>
      ∃ value after final,
        result = .ok value after ∧
          value ≠ -1 ∧
          AtRest buffer after ∧
          LineOk after.line ∧
          Shows after.line final ∧
          final.text = text ∧
          decode .key after.input = rest ∧ after.input.length < left
  | .left => ∃ after, result = .ok (-1) after
  | .waiting => ∃ after, result = .error .waiting after

theorem Ends.mono
    {left more : Nat} {result : EStateM.Result Stop Machine Int}
    {outcome : Outcome}
    (ends : Ends buffer left result outcome)
    (le : left ≤ more) :
    Ends buffer more result outcome := by
  cases outcome with
  | accepted text rest =>
      rcases ends with
        ⟨value, after, final, runs, notMinusOne, atRest, lineOk, shows, same,
          later, less⟩
      exact
        ⟨value, after, final, runs, notMinusOne, atRest, lineOk, shows, same,
          later, less.trans_le le⟩
  | left => exact ends
  | waiting => exact ends

/-- The loop edits as the editor does, by induction on the fuel. -/
theorem ends_editLoop
    {fuel : Nat}
    (editing : Editing buffer shell)
    (shows : Shows shell.line cursor)
    (enough : shell.input.length < fuel) :
    Ends buffer shell.input.length (editLoop fuel shell)
      (edit cursor (decode .key shell.input)) := by
  induction fuel generalizing shell cursor with
  | zero => exact absurd enough (Nat.not_lt_zero _)
  | succ fuel induction =>
      rw [editLoop]
      rcases input : shell.input with - | ⟨c, rest⟩
      · exact ⟨shell, bind_of_error (readByte_waiting input)⟩
      have length : (c :: rest).length = rest.length + 1 := List.length_cons
      have inFuel : rest.length < fuel := by
        rw [input, length] at enough
        exact Nat.lt_of_succ_lt_succ enough
      have next := editing.withInput rest
      rw [bind_of_ok (readByte_cons input), decode]
      by_cases escape : keyAction c = .esc
      · rw [if_pos escape, handleKey, escape]
        dsimp only
        rcases sequence_escapeSequence next shows with
          ⟨after, waits, nothing⟩ |
            ⟨change, after, runs, afterEditing, afterShows, commands, shorter⟩
        · have nothing : decode .escape rest = [] := nothing
          rw [nothing]
          exact ⟨after, bind_of_error (bind_of_error waits)⟩
        · have commands :
              decode .escape rest = .change change :: decode .key after.input :=
            commands
          have shorter : after.input.length ≤ rest.length := shorter
          have handled :
              (escapeSequence >>= fun _ =>
                  (pure none : ShellExec (Option Int)))
                  { shell with input := rest } =
                .ok none after :=
            bind_of_ok runs
          rw [commands, edit, bind_of_ok handled]
          exact
            (induction afterEditing afterShows (by omega)).mono (by omega)
      rw [if_neg escape]
      cases command : keyCommand c with
      | change change =>
          rcases handleKey_change escape command next shows with
            ⟨after, runs, afterEditing, afterShows, sameInput⟩
          have sameInput : after.input = rest := sameInput
          rw [edit, bind_of_ok runs, ← sameInput]
          apply
            (induction afterEditing afterShows (by rwa [sameInput])).mono
          rw [sameInput]
          omega
      | accept =>
          rcases handleKey_accept command next with
            ⟨after, runs, atRest, line, sameInput⟩
          have sameInput : after.input = rest := sameInput
          have line : after.line = shell.line := line
          rw [edit, bind_of_ok runs]
          refine
            ⟨_, after, cursor, rfl, ?_, atRest, ?_, ?_, rfl, ?_, ?_⟩
          · change (shell.line.len : Int) ≠ -1
            omega
          · rw [line]
            exact editing.line
          · rw [line]
            exact shows
          · rw [sameInput]
          · rw [sameInput]
            omega
      | leave =>
          rw [edit, bind_of_ok (handleKey_leave command)]
          exact ⟨_, rfl⟩
      | deleteOrLeave =>
          have answer := handleKey_deleteOrLeave command next shows
          rw [edit]
          by_cases noText : cursor.text = []
          · rw [if_pos noText] at answer ⊢
            rcases answer with ⟨after, runs⟩
            exact ⟨after, by rw [bind_of_ok runs]; rfl⟩
          · rw [if_neg noText] at answer ⊢
            rcases answer with ⟨after, runs, afterEditing, afterShows, same⟩
            have same : after.input = rest := same
            rw [bind_of_ok runs, ← same]
            apply (induction afterEditing afterShows (by rwa [same])).mono
            rw [same]
            omega

end NopOS.Shell.EditSession
