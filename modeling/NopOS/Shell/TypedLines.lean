import Mathlib.Data.List.TakeWhile
import NopOS.Shell.EditSession
import NopOS.Shell.FreedLog

/-!
# The lines which the shell prints

The text which was accepted is the line which `main` prints, for the whole run
of the shell, and `main` frees as many lines as it prints.
-/

namespace NopOS.Shell.TypedLines

open NopOS.Lib.BlockStack
open NopOS.Lib.IndexedBuffer
open NopOS.Lib.StatefulProgram
open NopOS.Lib.TextCursor
open NopOS.Heap.MallocPool
open NopOS.Heap.PoolRefinement
open NopOS.Heap.HeapRuns
open NopOS.Heap.PoolBounds
open NopOS.Heap.GuardedPool
open NopOS.Shell.Linenoise
open NopOS.Shell.EditorHeap
open NopOS.Shell.EditorCommands
open NopOS.Shell.EditorText
open NopOS.Shell.EditSession
open NopOS.Shell.FreedLog
open NopOS.Shell.ShellRuns

variable {buffer : Buffer} {shell : Machine} {cursor : Cursor Byte}

/-! ## Strings -/

theorem cString_of_holds
    {buf : Nat → Byte} {text : List Byte} {start fuel : Nat}
    (held : Holds buf start (text ++ [0]))
    (enough : text.length < fuel) :
    cString buf start fuel = some (string text) := by
  induction text generalizing start fuel with
  | nil =>
      have ends : buf start = 0 := (holds_cons.mp held).1
      cases fuel with
      | zero => cases enough
      | succ fuel => rw [cString, if_pos ends, string, List.takeWhile_nil]
  | cons c text induction =>
      rw [List.cons_append, holds_cons] at held
      cases fuel with
      | zero => cases enough
      | succ fuel =>
          rw [cString, held.1, string, List.takeWhile_cons]
          by_cases ends : c = 0
          · rw [if_pos ends, if_neg (by simp [ends])]
          · rw [if_neg ends, if_pos (by simpa using ends),
              induction held.2 (Nat.lt_of_succ_lt_succ enough)]
            rfl

/-- The line is the string of its text. -/
theorem lineString_of_shows
    (shows : Shows shell.line cursor)
    (lineOk : LineOk shell.line) :
    lineString shell = .ok (string cursor.text) shell := by
  have lenLe := lineOk.len_le
  rw [shows.len] at lenLe
  rw [lineString, bind_of_ok (get_run shell),
    cString_of_holds shows.held (by omega)]
  rfl

/-- A copy which could be made is the string. -/
theorem strings_of_strdup
    {text : List Byte} {ns : Pointer} {after : Machine}
    (copies : strdup text shell = .ok ns after)
    (notNull : ns ≠ 0) :
    after.strings ns = text := by
  rcases ok_of_bind copies with ⟨block, middle, -, sets⟩
  cases sets
  change (if ns ≠ 0 then Function.update middle.strings ns text
    else middle.strings) ns = text
  rw [if_pos notNull, Function.update_self]

/-! ## A call of `linenoise` -/

/-- The line as `linenoiseEdit` starts with it. -/
def startLine (frame : Nat → Byte) : LinenoiseState where
  buf := Function.update frame 0 0
  buflen := sizeSub linenoiseMaxLine 1
  prompt := shellPrompt
  plen := shellPrompt.length
  pos := 0
  len := 0
  cols := getColumns
  historyIndex := 0

theorem shows_startLine (frame : Nat → Byte) :
    Shows (startLine frame) Cursor.empty where
  pos := rfl
  len := rfl
  held := holds_update_self frame 0 0

/-- `linenoiseRaw` edits an empty line. -/
theorem ends_linenoiseRaw
    (frame : Nat → Byte)
    (ready : Ready buffer shell) :
    Ends buffer shell.input.length
      (linenoiseRaw frame linenoiseMaxLine shellPrompt shell)
      (edit .empty (decode .key shell.input)) := by
  let started : Machine := { shell with line := startLine frame }
  have sets : setLine (startLine frame) shell = .ok () started := rfl
  have startedReady : Ready buffer started :=
    { heap := ready.heap
      historyLen := ready.historyLen
      recorded := ⟨ready.recorded.calls, ready.recorded.freed⟩ }
  rcases historyAdd_spec startedReady (lineOk_start frame) with
    ⟨value, editor, adds, editing, input⟩
  have line := leaves_historyAdd line_besideHistory [] started
  rw [adds, finalState_ok] at line
  have shows : Shows editor.line Cursor.empty := by
    rw [line]
    exact shows_startLine frame
  have printed : write shellPrompt.length ≠ -1 := by decide
  have edits :
      linenoiseRaw frame linenoiseMaxLine shellPrompt shell =
        editLoop (editor.input.length + 1) editor := by
    change (setLine (startLine frame) >>= _) shell = _
    rw [bind_of_ok sets, bind_of_ok adds, if_neg printed,
      bind_of_ok (get_run editor)]
  have inputEq : editor.input = shell.input := input
  rw [edits, ← inputEq]
  exact ends_editLoop editing shows (Nat.lt_succ_self _)

/-- What the outcome of an edit is for the caller of `linenoise`. -/
def Returns
    (buffer : Buffer) (left : Nat)
    (result : EStateM.Result Stop Machine Pointer) : Outcome → Prop
  | .accepted text rest =>
      ∃ line size after,
        result = .ok line after ∧
          line.toNat = buffer.address.toNat + 800 ∧
          after.strings line = string text ∧
          InBuffer buffer after.pool (push size restEntries) ∧
          after.history = buffer.address ∧
          after.historyLen = 0 ∧
          Recorded after ∧
          decode .key after.input = rest ∧ after.input.length < left
  | .left => ∃ after, result = .ok 0 after
  | .waiting => ∃ after, result = .error .waiting after

/-- `linenoise` returns a copy of the line. -/
theorem returns_linenoise
    (frame : Nat → Byte)
    (ready : Ready buffer shell) :
    Returns buffer shell.input.length (linenoise frame shellPrompt shell)
      (edit .empty (decode .key shell.input)) := by
  have ends := ends_linenoiseRaw frame ready
  rw [linenoise]
  cases outcome : edit .empty (decode .key shell.input) with
  | accepted text rest =>
      rw [outcome] at ends
      rcases ends with
        ⟨value, edited, final, returns, notMinusOne, atRest, lineOk, shows,
          rfl, later, less⟩
      have short : (string final.text).length ≤ 4095 := by
        have prefixLe := (List.takeWhile_prefix (· ≠ (0 : Byte))
          (l := final.text)).length_le
        have lenLe := lineOk.len_le
        rw [shows.len] at lenLe
        exact prefixLe.trans lenLe
      rcases strdup_spec atRest.inBuffer short (by decide) (by decide) with
        ⟨line, after, copies, pointer, afterIn, follows⟩
      have above : buffer.address.toNat ≤ line.toNat := by omega
      rw [bind_of_ok returns, if_neg notMinusOne,
        bind_of_ok (lineString_of_shows shows lineOk)]
      refine
        ⟨line, _, after, copies, pointer,
          strings_of_strdup copies (ne_zero_of_le above), afterIn,
          follows.history.trans atRest.array,
          follows.historyLen.trans atRest.historyLen,
          follows.recorded atRest.recorded, ?_, ?_⟩
      · rw [follows.input]
        exact later
      · rw [follows.input]
        exact less
  | left =>
      rw [outcome] at ends
      rcases ends with ⟨after, returns⟩
      rw [bind_of_ok returns]
      exact ⟨after, rfl⟩
  | waiting =>
      rw [outcome] at ends
      rcases ends with ⟨after, waits⟩
      exact ⟨after, bind_of_error waits⟩

/-! ## The loop of `main` -/

/-- The loop of `main`, with the strings given to the printer. -/
def printingLoop (frames : Nat → Nat → Byte) :
    Nat → Machine →
      List (List Byte) × EStateM.Result Stop Machine Unit
  | 0, shell => ([], .error .outOfFuel shell)
  | fuel + 1, shell =>
      match linenoise (frames shell.freed.length) shellPrompt shell with
      | .error stop after => ([], .error stop after)
      | .ok line after =>
          if line = 0 then ([], .ok () after)
          else
            match heap (.free line) after with
            | .error stop last => ([after.strings line], .error stop last)
            | .ok _ last =>
                let (lines, result) :=
                  printingLoop frames fuel
                    { last with
                      freed := last.freed ++ [(last.pool, last.history)] }
                (after.strings line :: lines, result)

/-- The printing does not change the run. -/
theorem printingLoop_snd
    (frames : Nat → Nat → Byte) (fuel : Nat) (shell : Machine) :
    (printingLoop frames fuel shell).2 = mainLoop frames fuel shell := by
  induction fuel generalizing shell with
  | zero => rfl
  | succ fuel induction =>
      rw [printingLoop, mainLoop, bind_of_ok (get_run shell)]
      cases returns :
          linenoise (frames shell.freed.length) shellPrompt shell with
      | error stop after => rw [bind_of_error returns]
      | ok line after =>
          rw [bind_of_ok returns]
          dsimp only
          by_cases ends : line = 0
          · rw [if_pos ends, if_pos ends]
            rfl
          rw [if_neg ends, if_neg ends]
          cases frees : heap (.free line) after with
          | error stop last => rw [bind_of_error frees]
          | ok rv last =>
              rw [bind_of_ok frees]
              exact induction _

/-- A fault of the heap is not the end of the input. -/
theorem heap_ne_waiting (call : HeapCall) (shell after : Machine) :
    heap call shell ≠ .error .waiting after := by
  intro waits
  rw [heap] at waits
  cases performed : call.perform shell.pool with
  | ok rv pool =>
      rw [performed] at waits
      cases waits
  | error fault pool =>
      rw [performed] at waits
      cases waits

/-- A run which does not fault notes one freed line for each line it prints. -/
theorem length_freed_printingLoop
    (frames : Nat → Nat → Byte) (fuel : Nat) {shell after : Machine}
    (stops :
      (printingLoop frames fuel shell).2 = .ok () after ∨
        (printingLoop frames fuel shell).2 = .error .waiting after) :
    after.freed.length =
      shell.freed.length + (printingLoop frames fuel shell).1.length := by
  induction fuel generalizing shell with
  | zero =>
      rw [printingLoop] at stops
      rcases stops with stops | stops
      · cases stops
      · cases stops
  | succ fuel induction =>
      have edited :=
        leaves_linenoise (frames shell.freed.length) shellPrompt shell
      rw [printingLoop] at stops ⊢
      cases returns :
          linenoise (frames shell.freed.length) shellPrompt shell with
      | error stop middle =>
          rw [returns] at stops edited
          rcases stops with stops | stops
          · cases stops
          · cases stops
            exact congrArg List.length edited
      | ok line middle =>
          rw [returns] at stops edited
          dsimp only at stops ⊢
          by_cases ends : line = 0
          · rw [if_pos ends] at stops ⊢
            rcases stops with stops | stops
            · cases stops
              exact congrArg List.length edited
            · cases stops
          rw [if_neg ends] at stops ⊢
          have released := leaves_heap freed_besideHistory (.free line) middle
          cases frees : heap (.free line) middle with
          | error stop last =>
              rw [frees] at stops
              rcases stops with stops | stops
              · cases stops
              · cases stops
                exact absurd frees (heap_ne_waiting _ _ _)
          | ok rv last =>
              rw [frees] at stops released
              have noted := induction stops
              have kept : last.freed = shell.freed := released.trans edited
              have grown :
                  (last.freed ++ [(last.pool, last.history)]).length =
                    shell.freed.length + 1 := by
                rw [List.length_append, List.length_singleton, kept]
              dsimp only at noted ⊢
              rw [noted, grown, List.length_cons]
              omega

/-- The next line starts from a pool with the history array alone. -/
theorem ready_noteFreed
    (atRest : AtRest buffer shell) :
    Ready buffer
      { shell with freed := shell.freed ++ [(shell.pool, shell.history)] } where
  heap := atRest.ready.heap
  historyLen := atRest.historyLen
  recorded := by
    refine ⟨atRest.recorded.calls, ?_⟩
    intro entry isFreed
    rcases List.mem_append.1 isFreed with earlier | last
    · exact atRest.recorded.freed entry earlier
    · rw [List.mem_singleton.1 last]
      exact atRest.historyOnly

/-- The shell prints the lines of the session, by induction on the fuel. -/
theorem printingLoop_session
    (frames : Nat → Nat → Byte) {fuel : Nat}
    (ready : Ready buffer shell)
    (enough : shell.input.length < fuel) :
    ∃ after,
      printingLoop frames fuel shell =
        ((session .empty (decode .key shell.input)).lines,
          if (session .empty (decode .key shell.input)).left then
            .ok () after
          else .error .waiting after) := by
  induction fuel generalizing shell with
  | zero => exact absurd enough (Nat.not_lt_zero _)
  | succ fuel induction =>
      have returned :=
        returns_linenoise (frames shell.freed.length) ready
      rw [printingLoop, session_eq]
      cases outcome : edit .empty (decode .key shell.input) with
      | accepted text rest =>
          rw [outcome] at returned
          rcases returned with
            ⟨line, size, edited, returns, pointer, copied, inBuffer, array,
              historyLen, recorded, later, less⟩
          have above : buffer.address.toNat ≤ line.toNat := by omega
          rcases free_spec pointer inBuffer array historyLen recorded with
            ⟨last, frees, atRest, -, input⟩
          let noted : Machine :=
            { last with freed := last.freed ++ [(last.pool, last.history)] }
          have notedReady : Ready buffer noted := ready_noteFreed atRest
          have notedInput : noted.input = edited.input := input
          rcases induction notedReady (by rw [notedInput]; omega) with
            ⟨after, runs⟩
          rw [notedInput, later] at runs
          refine ⟨after, ?_⟩
          rw [returns]
          dsimp only
          rw [if_neg (ne_zero_of_le above), frees]
          dsimp only
          rw [runs, copied]
          rfl
      | left =>
          rw [outcome] at returned
          rcases returned with ⟨after, returns⟩
          refine ⟨after, ?_⟩
          rw [returns]
          rfl
      | waiting =>
          rw [outcome] at returned
          rcases returned with ⟨after, waits⟩
          refine ⟨after, ?_⟩
          rw [waits]
          rfl

/-- The shell starts with an empty pool. -/
theorem ready_initial
    (buffer : Buffer) (line : LinenoiseState) (input : List Byte) :
    Ready buffer (Machine.initial buffer.address line input) where
  heap := Or.inl ⟨⟨represents_initial buffer.address, rfl⟩, rfl⟩
  historyLen := rfl
  recorded :=
    ⟨fun _ isCall => absurd isCall List.not_mem_nil,
      fun _ isFreed => absurd isFreed List.not_mem_nil⟩

/-! ## The session -/

/-- Whatever is typed, each accepted line was freed and left the history array
alone in the pool, and no call to the heap left the limits of the pool. -/
theorem shell_does_not_leak
    (buffer : Buffer) (line : LinenoiseState) (frames : Nat → Nat → Byte)
    (input : List Byte) :
    ∃ after,
      mainLoop frames (input.length + 1)
          (Machine.initial buffer.address line input) =
        (if (session .empty (decode .key input)).left then .ok () after
        else .error .waiting after) ∧
        after.freed.length =
          (session .empty (decode .key input)).lines.length ∧
        (∀ entry ∈ after.freed, HistoryOnly entry.1 entry.2) ∧
        ∀ entry ∈ after.calls, KeepsLimits entry.1 entry.2 := by
  have ready := ready_initial buffer line input
  have printed :
      ∃ after,
        printingLoop frames (input.length + 1)
            (Machine.initial buffer.address line input) =
          ((session .empty (decode .key input)).lines,
            if (session .empty (decode .key input)).left then .ok () after
            else .error .waiting after) :=
    printingLoop_session frames ready (Nat.lt_succ_self _)
  rcases printed with ⟨after, prints⟩
  have runs :
      mainLoop frames (input.length + 1)
          (Machine.initial buffer.address line input) =
        if (session .empty (decode .key input)).left then .ok () after
        else .error .waiting after := by
    rw [← printingLoop_snd]
    exact congrArg Prod.snd prints
  refine ⟨after, runs, ?_, ?_⟩
  · have counted :=
      @length_freed_printingLoop frames (input.length + 1)
        (Machine.initial buffer.address line input) after
    rw [printingLoop_snd, runs, congrArg Prod.fst prints] at counted
    refine (counted ?_).trans (Nat.zero_add _)
    split
    · exact Or.inl rfl
    · exact Or.inr rfl
  · rcases
      @mainLoop_spec buffer _ frames (input.length + 1) ready
        (Nat.lt_succ_self _) with
      ⟨last, ends, recorded⟩
    rw [runs] at ends
    have same : last = after := by
      split at ends
      · rcases ends with ends | ends
        · cases ends
          rfl
        · cases ends
      · rcases ends with ends | ends
        · cases ends
        · cases ends
          rfl
    rw [same] at recorded
    exact ⟨recorded.freed, recorded.calls⟩

/-- The shell prints the lines of the session, and stops when the user leaves
it or when there is no more input. -/
theorem shell_prints_session
    (buffer : Buffer) (line : LinenoiseState) (frames : Nat → Nat → Byte)
    (input : List Byte) :
    (printingLoop frames (input.length + 1)
        (Machine.initial buffer.address line input)).1 =
        (session .empty (decode .key input)).lines ∧
      ∃ after,
        mainLoop frames (input.length + 1)
            (Machine.initial buffer.address line input) =
          if (session .empty (decode .key input)).left then .ok () after
          else .error .waiting after := by
  rcases
    printingLoop_session frames (ready_initial buffer line input)
      (Nat.lt_succ_self _) with
    ⟨after, runs⟩
  constructor
  · exact congrArg Prod.fst runs
  · refine ⟨after, ?_⟩
    rw [← printingLoop_snd]
    exact congrArg Prod.snd runs

/-! ## Lines of plain characters -/

/-- A character which is inserted and does not end a string. -/
def Plain (c : Byte) : Prop := keyAction c = .other ∧ c ≠ 0

instance (c : Byte) : Decidable (Plain c) :=
  inferInstanceAs (Decidable (_ ∧ _))

/-- A plain character is inserted. -/
theorem decode_plain
    {text : List Byte}
    (plain : ∀ c ∈ text, Plain c)
    (rest : List Byte) :
    decode .key (text ++ rest) =
      text.map (fun c => .change (.insert c)) ++ decode .key rest := by
  induction text with
  | nil => rfl
  | cons c text induction =>
      have other : keyAction c = .other := (plain c List.mem_cons_self).1
      have noEscape : keyAction c ≠ .esc := by
        rw [other]
        decide
      have first : keyCommand c = .change (.insert c) := by
        rw [keyCommand, other]
      rw [List.cons_append, decode, if_neg noEscape, first,
        induction fun d inText => plain d (List.mem_cons_of_mem c inText)]
      rfl

/-- Typing at the end of the line stops at 4095 characters. -/
theorem session_typed
    (text : List Byte) (rest : List Command) {behind : List Byte}
    (short : behind.length ≤ 4095) :
    session ⟨behind, []⟩
        (text.map (fun c => .change (.insert c)) ++ rest) =
      session ⟨((behind.reverse ++ text).take 4095).reverse, []⟩ rest := by
  induction text generalizing behind with
  | nil =>
      rw [List.append_nil, List.take_of_length_le (by simpa using short),
        List.reverse_reverse]
      rfl
  | cons c text induction =>
      rw [List.map_cons, List.cons_append, session, Change.apply, typed,
        length_mk, List.length_nil, Nat.add_zero]
      by_cases full : behind.length < 4095
      · rw [if_pos full, Cursor.insert,
          @induction (c :: behind) (Nat.succ_le_of_lt full),
          List.reverse_cons,
          List.append_assoc]
        rfl
      · have last : 4095 ≤ behind.reverse.length := by
          rw [List.length_reverse]
          omega
        rw [if_neg full, induction short,
          List.take_append_of_le_length last,
          List.take_append_of_le_length last]

/-- Plain lines are accepted one after another, cut to 4095 characters. -/
theorem session_plain
    {lines : List (List Byte)}
    (plain : ∀ text ∈ lines, ∀ c ∈ text, Plain c) :
    session .empty (decode .key (lines.flatMap (· ++ [13]))) =
      ⟨lines.map (List.take 4095), false⟩ := by
  induction lines with
  | nil => rfl
  | cons text lines induction =>
      have later := induction fun other inLines =>
        plain other (List.mem_cons_of_mem text inLines)
      have textPlain := plain text List.mem_cons_self
      have whole : string (text.take 4095) = text.take 4095 := by
        rw [string, List.takeWhile_eq_self_iff]
        intro c inText
        have notZero := (textPlain c (List.mem_of_mem_take inText)).2
        simpa using notZero
      rw [List.flatMap_cons, List.append_assoc, decode_plain textPlain]
      change
        session ⟨[], []⟩
            (_ ++ .accept :: decode .key (lines.flatMap (· ++ [13]))) =
          _
      rw [session_typed text _ (Nat.zero_le _), session, later, Cursor.text,
        List.append_nil, List.reverse_reverse, List.reverse_nil,
        List.nil_append, whole]
      rfl

/-- Lines of plain characters are printed as they were typed, each up to the
size of the buffer. -/
theorem shell_prints_plain_lines
    (buffer : Buffer) (line : LinenoiseState) (frames : Nat → Nat → Byte)
    (lines : List (List Byte))
    (plain : ∀ text ∈ lines, ∀ c ∈ text, Plain c) :
    ∃ after,
      printingLoop frames ((lines.flatMap (· ++ [13])).length + 1)
          (Machine.initial buffer.address line
            (lines.flatMap (· ++ [13]))) =
        (lines.map (List.take 4095), .error Stop.waiting after) := by
  rcases
    printingLoop_session frames
      (ready_initial buffer line (lines.flatMap (· ++ [13])))
      (Nat.lt_succ_self _) with
    ⟨after, runs⟩
  refine ⟨after, runs.trans ?_⟩
  change
    ((session .empty (decode .key (lines.flatMap (· ++ [13])))).lines,
      if (session .empty (decode .key (lines.flatMap (· ++ [13])))).left then
        EStateM.Result.ok () after
      else .error Stop.waiting after) = _
  rw [session_plain plain]
  rfl

/-- A line and an empty one. -/
theorem shell_prints_plain_lines_two :
    ∃ after,
      printingLoop (fun _ _ => 0) 5
          (Machine.initial 0x100000 (startLine fun _ => 0)
            [0x68, 0x69, 13, 13]) =
        ([[0x68, 0x69], []], .error Stop.waiting after) :=
  shell_prints_plain_lines ⟨0x100000, by decide, by decide⟩
    (startLine fun _ => 0) (fun _ _ => 0) [[0x68, 0x69], []] (by decide)

end NopOS.Shell.TypedLines
