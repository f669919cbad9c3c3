import NopOS.Heap.HeapRuns
import NopOS.Lib.ByteRange

/-!
# The shell: `linenoise.c` and the loop of `main`

In single-line mode and without a completion callback.  `read` blocks until
the console has a byte and gives exactly one, so that execution stops when the
input is used up.  `write` never fails; what it prints is left out.

The heap is the pool with its calls.  Of the contents of the blocks only those
which are read again are kept: the pointers in the history array, and the
strings made by `strdup`.
-/

namespace NopOS.Shell.Linenoise

open NopOS.Lib.ByteRange
open NopOS.Lib.StatefulProgram
open NopOS.Heap.MallocPool
open NopOS.Heap.HeapRuns

/-- A character. -/
abbrev Byte := BitVec 8

/-- An address of the heap. -/
abbrev Pointer := BitVec 64

/-- Why execution stops. -/
inductive Stop where
  | waiting
  | fault (fault : Fault)
  | historyIndex (i : Int)
  | unterminated
  | outOfFuel

/-- `struct linenoiseState`. -/
structure LinenoiseState where
  buf : Nat → Byte
  buflen : Nat
  prompt : List Byte
  plen : Nat
  pos : Nat
  len : Nat
  cols : Nat
  historyIndex : Int

/-- The machine which runs the shell.  The last two members only keep account:
of the calls made to the heap, each with the pool before it, and of the pool
and the history array whenever a line has been freed. -/
structure Machine where
  pool : Pool
  history : Pointer
  slots : Int → Pointer
  historyLen : Int
  strings : Pointer → List Byte
  line : LinenoiseState
  input : List Byte
  calls : List (Pool × HeapCall)
  freed : List (Pool × Pointer)

/-- Computations of the shell, which may stop. -/
abbrev ShellExec := EStateM Stop Machine

/-! ## Memory, console and strings -/

/-- A call of the allocator, recorded with the tables it meets. -/
def heap (call : HeapCall) : ShellExec Pointer := fun shell =>
  let calls := shell.calls ++ [(shell.pool, call)]
  match call.perform shell.pool with
  | .ok rv pool => .ok rv { shell with pool := pool, calls := calls }
  | .error fault pool =>
      .error (.fault fault) { shell with pool := pool, calls := calls }

/-- `read(fd, &c, 1)`. -/
def readByte : ShellExec Byte := fun shell =>
  match shell.input with
  | [] => .error .waiting shell
  | c :: input => .ok c { shell with input := input }

/-- What `write` returns. -/
def write (count : Nat) : Int := count

/-- Subtraction of `size_t`. -/
def sizeSub (a b : Nat) : Nat := (a + 2 ^ 64 - b) % 2 ^ 64

/-- Replaces `linenoiseState`. -/
def setLine (line : LinenoiseState) : ShellExec Unit :=
  modify fun shell => { shell with line := line }

/-- `memmove(buf + target, buf + source, count)`. -/
def memmove (buf : Nat → Byte) (target source count : Nat) : Nat → Byte :=
  overwrite buf target count fun i => buf (source + i)

/-- The string at an index of a buffer of 4096 bytes. -/
def cString (buf : Nat → Byte) (start : Nat) : Nat → Option (List Byte)
  | 0 => none
  | left + 1 =>
      if buf start = 0 then some []
      else (cString buf (start + 1) left).map (buf start :: ·)

/-- The string in `l->buf`. -/
def lineString : ShellExec (List Byte) := do
  let shell ← get
  match cString shell.line.buf 0 4096 with
  | some string => return string
  | none => throw .unterminated

/-- `strdup`, whose copy is the string under the new address. -/
def strdup (string : List Byte) : ShellExec Pointer := do
  let ns ← heap (.malloc (BitVec.ofNat 64 (string.length + 1)))
  modify fun shell =>
    { shell with
      strings :=
        if ns ≠ 0 then Function.update shell.strings ns string
        else shell.strings }
  return ns

/-! ## The append buffer -/

/-- `abuf`, the append buffer. -/
structure Abuf where
  b : Pointer
  len : Nat

/-- `abInit`. -/
def abInit : Abuf where
  b := 0
  len := 0

/-- `abAppend` keeps the buffer where `realloc` fails. -/
def abAppend (ab : Abuf) (s : List Byte) : ShellExec Abuf := do
  let new ← heap (.realloc ab.b (BitVec.ofNat 64 (ab.len + s.length)))
  if new = 0 then return ab
  else return { b := new, len := ab.len + s.length }

/-- `abFree`. -/
def abFree (ab : Abuf) : ShellExec Unit := do
  let _ ← heap (.free ab.b)

/-! ## The refresh -/

/-- `%d`. -/
def decimal (value : Int) : List Byte :=
  (if value < 0 then [0x2d] else []) ++
    (Nat.toDigits 10 value.natAbs).map fun digit =>
      BitVec.ofNat 8 digit.toNat

/-- `snprintf(seq, 64, "\r\x1b[%dC", value)`. -/
def cursorRight (value : Int) : List Byte :=
  ([0x0d, 0x1b, 0x5b] ++ decimal value ++ [0x43]).take 63

/-- The first loop of `refreshSingleLine`, on `buf`, `len` and `pos`. -/
def scrollLoop (plen cols : Nat) :
    Nat → Nat × Nat × Nat → ShellExec (Nat × Nat × Nat)
  | 0, _ => throw .outOfFuel
  | fuel + 1, (buf, len, pos) =>
      if plen + pos ≥ cols then
        scrollLoop plen cols fuel (buf + 1, sizeSub len 1, sizeSub pos 1)
      else return (buf, len, pos)

/-- The second loop, on `len`. -/
def shortenLoop (plen cols : Nat) : Nat → Nat → ShellExec Nat
  | 0, _ => throw .outOfFuel
  | fuel + 1, len =>
      if plen + len > cols then
        shortenLoop plen cols fuel (sizeSub len 1)
      else return len

/-- `refreshSingleLine` collects the escape sequences and the visible part of
the line, then writes them at once. -/
def refreshSingleLine : ShellExec Unit := do
  let shell ← get
  let l := shell.line
  let plen := l.prompt.length
  let (buf, len, pos) ← scrollLoop plen l.cols (l.pos + 1) (0, l.len, l.pos)
  let len ← shortenLoop plen l.cols (len + 1) len
  let ab := abInit
  let ab ← abAppend ab [0x0d]
  let ab ← abAppend ab l.prompt
  let ab ← abAppend ab ((List.range len).map fun i => l.buf (buf + i))
  let ab ← abAppend ab [0x1b, 0x5b, 0x30, 0x4b]
  let ab ← abAppend ab (cursorRight (int (pos + plen)))
  abFree ab

/-- `refreshLine` of a terminal that is not in multi line mode. -/
def refreshLine : ShellExec Unit := refreshSingleLine

/-! ## Editing -/

/-- `linenoiseEditInsert` at the end of the line or within it. -/
def linenoiseEditInsert (c : Byte) : ShellExec Int := do
  let shell ← get
  let l := shell.line
  if l.len < l.buflen then
    if l.len = l.pos then
      let buf := Function.update l.buf l.pos c
      setLine
        { l with
          buf := Function.update buf (l.len + 1) 0
          pos := l.pos + 1
          len := l.len + 1 }
      if l.plen + (l.len + 1) < l.cols then
        return if write 1 = -1 then -1 else 0
      else
        refreshLine
        return 0
    else
      let buf := memmove l.buf (l.pos + 1) l.pos (sizeSub l.len l.pos)
      let buf := Function.update buf l.pos c
      setLine
        { l with
          buf := Function.update buf (l.len + 1) 0
          pos := l.pos + 1
          len := l.len + 1 }
      refreshLine
      return 0
  else return 0

/-- Put the cursor elsewhere. -/
def moveTo (pos : Nat) : ShellExec Unit := do
  let shell ← get
  setLine { shell.line with pos := pos }
  refreshLine

/-- `linenoiseEditMoveLeft`. -/
def linenoiseEditMoveLeft : ShellExec Unit := do
  let shell ← get
  if shell.line.pos > 0 then moveTo (sizeSub shell.line.pos 1)
  else return ()

/-- `linenoiseEditMoveRight`. -/
def linenoiseEditMoveRight : ShellExec Unit := do
  let shell ← get
  if shell.line.pos ≠ shell.line.len then moveTo (shell.line.pos + 1)
  else return ()

/-- `linenoiseEditMoveHome`. -/
def linenoiseEditMoveHome : ShellExec Unit := do
  let shell ← get
  if shell.line.pos ≠ 0 then moveTo 0
  else return ()

/-- `linenoiseEditMoveEnd`. -/
def linenoiseEditMoveEnd : ShellExec Unit := do
  let shell ← get
  if shell.line.pos ≠ shell.line.len then moveTo shell.line.len
  else return ()

/-- `linenoiseEditDelete` takes the character under the cursor. -/
def linenoiseEditDelete : ShellExec Unit := do
  let shell ← get
  let l := shell.line
  if l.len > 0 ∧ l.pos < l.len then
    let buf :=
      memmove l.buf l.pos (l.pos + 1) (sizeSub (sizeSub l.len l.pos) 1)
    let len := sizeSub l.len 1
    setLine { l with buf := Function.update buf len 0, len := len }
    refreshLine
  else return ()

/-- `linenoiseEditBackspace` takes the character before it. -/
def linenoiseEditBackspace : ShellExec Unit := do
  let shell ← get
  let l := shell.line
  if l.pos > 0 ∧ l.len > 0 then
    let buf :=
      memmove l.buf (sizeSub l.pos 1) l.pos (sizeSub l.len l.pos)
    let len := sizeSub l.len 1
    setLine
      { l with
        buf := Function.update buf len 0
        pos := sizeSub l.pos 1
        len := len }
    refreshLine
  else return ()

/-- `while (l->pos > 0 && ...) l->pos--` with a test on the byte before. -/
def backWhile (test : Byte → Bool) (buf : Nat → Byte) : Nat → Nat
  | 0 => 0
  | pos + 1 => if test (buf pos) then backWhile test buf pos else pos + 1

/-- `linenoiseEditDeletePrevWord` takes the blanks before the cursor and the
word before them. -/
def linenoiseEditDeletePrevWord : ShellExec Unit := do
  let shell ← get
  let l := shell.line
  let oldPos := l.pos
  let pos := backWhile (· = 0x20) l.buf oldPos
  let pos := backWhile (· ≠ 0x20) l.buf pos
  let diff := sizeSub oldPos pos
  setLine
    { l with
      buf := memmove l.buf pos oldPos (sizeSub l.len oldPos + 1)
      pos := pos
      len := sizeSub l.len diff }
  refreshLine

/-- Ctrl-t. -/
def swapCharacters : ShellExec Unit := do
  let shell ← get
  let l := shell.line
  if l.pos > 0 ∧ l.pos < l.len then
    let before := sizeSub l.pos 1
    let aux := l.buf before
    let buf := Function.update l.buf before (l.buf l.pos)
    setLine
      { l with
        buf := Function.update buf l.pos aux
        pos := if l.pos ≠ sizeSub l.len 1 then l.pos + 1 else l.pos }
    refreshLine
  else return ()

/-- Ctrl-u. -/
def deleteLine : ShellExec Unit := do
  let shell ← get
  setLine
    { shell.line with
      buf := Function.update shell.line.buf 0 0
      pos := 0
      len := 0 }
  refreshLine

/-- Ctrl-k. -/
def deleteToEnd : ShellExec Unit := do
  let shell ← get
  let l := shell.line
  setLine { l with buf := Function.update l.buf l.pos 0, len := l.pos }
  refreshLine

/-! ## The history -/

/-- `history_max_len`. -/
def historyMaxLen : Int := 100

/-- `history[i]`, which must lie in the array. -/
def readSlot (i : Int) : ShellExec Pointer := do
  let shell ← get
  if 0 ≤ i ∧ i < historyMaxLen then return shell.slots i
  else throw (.historyIndex i)

/-- `history[i] = value`. -/
def writeSlot (i : Int) (value : Pointer) : ShellExec Unit :=
  if 0 ≤ i ∧ i < historyMaxLen then
    modify fun shell =>
      { shell with slots := Function.update shell.slots i value }
  else throw (.historyIndex i)

/-- `history_len = value`. -/
def setHistoryLen (value : Int) : ShellExec Unit :=
  modify fun shell => { shell with historyLen := value }

/-- The allocation of the array on the first call. -/
def historyInit : ShellExec Unit := do
  let shell ← get
  if shell.history = 0 then
    let array ← heap (.malloc (BitVec.ofInt 64 (8 * historyMaxLen)))
    modify fun shell =>
      { shell with
        history := array
        slots := if array = 0 then shell.slots else fun _ => 0 }
  else return ()

/-- Whether the latest entry is the same line. -/
def isDuplicate (line : List Byte) : ShellExec Bool := do
  let shell ← get
  if shell.historyLen = 0 then return false
  else
    let last ← readSlot (shell.historyLen - 1)
    return shell.strings last = line

/-- The oldest entry goes if the array is full. -/
def dropOldest : ShellExec Unit := do
  let shell ← get
  if shell.historyLen = historyMaxLen then
    let oldest ← readSlot 0
    let _ ← heap (.free oldest)
    modify fun shell =>
      { shell with
        slots := fun i =>
          if 0 ≤ i ∧ i < historyMaxLen - 1 then shell.slots (i + 1)
          else shell.slots i }
    setHistoryLen (shell.historyLen - 1)
  else return ()

/-- `linenoiseHistoryAdd` frees the oldest line of a full history. -/
def linenoiseHistoryAdd (line : List Byte) : ShellExec Int := do
  historyInit
  let shell ← get
  if shell.history = 0 then return 0
  else if ← isDuplicate line then return 0
  else
    let linecopy ← strdup line
    if linecopy = 0 then return 0
    else
      dropOldest
      let shell ← get
      writeSlot shell.historyLen linecopy
      setHistoryLen (shell.historyLen + 1)
      return 1

/-- `history_len--; _free(history[history_len]);`. -/
def dropLatest : ShellExec Unit := do
  let shell ← get
  setHistoryLen (shell.historyLen - 1)
  let latest ← readSlot (shell.historyLen - 1)
  let _ ← heap (.free latest)

/-- `strncpy(buf, string, count)`. -/
def strncpy (buf : Nat → Byte) (string : List Byte) (count : Nat) :
    Nat → Byte :=
  overwrite buf 0 count fun i => string.getD i 0

/-- `LINENOISE_HISTORY_NEXT` and `LINENOISE_HISTORY_PREV`. -/
inductive Direction where
  | next
  | prev
deriving DecidableEq

/-- Show the entry at `history_index`. -/
def showHistory : ShellExec Unit := do
  let shell ← get
  let l := shell.line
  let entry ← readSlot (shell.historyLen - 1 - l.historyIndex)
  let buf := strncpy l.buf (shell.strings entry) l.buflen
  setLine { l with buf := Function.update buf (sizeSub l.buflen 1) 0 }
  let string ← lineString
  let shell ← get
  setLine { shell.line with pos := string.length, len := string.length }
  refreshLine

/-- `linenoiseEditHistoryNext` stores the current line before it shows another.
-/
def linenoiseEditHistoryNext (dir : Direction) : ShellExec Unit := do
  let shell ← get
  if shell.historyLen > 1 then
    let current := shell.historyLen - 1 - shell.line.historyIndex
    let old ← readSlot current
    let _ ← heap (.free old)
    let string ← lineString
    let copy ← strdup string
    writeSlot current copy
    let index :=
      shell.line.historyIndex + if dir = .prev then 1 else -1
    if index < 0 then
      setLine { shell.line with historyIndex := 0 }
    else if index ≥ shell.historyLen then
      setLine { shell.line with historyIndex := shell.historyLen - 1 }
    else
      setLine { shell.line with historyIndex := index }
      showHistory
  else return ()

/-! ## The keys -/

/-- `enum KEY_ACTION`, as far as the keys are told apart. -/
inductive KeyAction where
  | enter | ctrlC | backspace | ctrlD | ctrlT | ctrlB | ctrlF | ctrlP
  | ctrlN | esc | ctrlU | ctrlK | ctrlA | ctrlE | ctrlL | ctrlW | other
deriving DecidableEq

/-- The label of the `switch` for a character. -/
def keyAction (c : Byte) : KeyAction :=
  if c = 13 then .enter
  else if c = 3 then .ctrlC
  else if c = 127 then .backspace
  else if c = 8 then .backspace
  else if c = 4 then .ctrlD
  else if c = 20 then .ctrlT
  else if c = 2 then .ctrlB
  else if c = 6 then .ctrlF
  else if c = 16 then .ctrlP
  else if c = 14 then .ctrlN
  else if c = 27 then .esc
  else if c = 21 then .ctrlU
  else if c = 11 then .ctrlK
  else if c = 1 then .ctrlA
  else if c = 5 then .ctrlE
  else if c = 12 then .ctrlL
  else if c = 23 then .ctrlW
  else .other

/-- What follows `ESC [` and is no digit. -/
def bracketKey (c : Byte) : ShellExec Unit :=
  if c = 0x41 then linenoiseEditHistoryNext .prev
  else if c = 0x42 then linenoiseEditHistoryNext .next
  else if c = 0x43 then linenoiseEditMoveRight
  else if c = 0x44 then linenoiseEditMoveLeft
  else if c = 0x48 then linenoiseEditMoveHome
  else if c = 0x46 then linenoiseEditMoveEnd
  else return ()

/-- `case ESC`. -/
def escapeSequence : ShellExec Unit := do
  let seq0 ← readByte
  let seq1 ← readByte
  if seq0 = 0x5b then
    if 0x30 ≤ seq1 ∧ seq1 ≤ 0x39 then
      let seq2 ← readByte
      if seq2 = 0x7e ∧ seq1 = 0x33 then linenoiseEditDelete
      else return ()
    else bracketKey seq1
  else if seq0 = 0x4f then
    if seq1 = 0x48 then linenoiseEditMoveHome
    else if seq1 = 0x46 then linenoiseEditMoveEnd
    else return ()
  else return ()

/-- The `switch` of `linenoiseEdit`, with what it returns if it does. -/
def handleKey (c : Byte) : ShellExec (Option Int) := do
  match keyAction c with
  | .enter =>
      dropLatest
      let shell ← get
      return some shell.line.len
  | .ctrlC => return some (-1)
  | .backspace =>
      linenoiseEditBackspace
      return none
  | .ctrlD =>
      let shell ← get
      if shell.line.len > 0 then
        linenoiseEditDelete
        return none
      else
        dropLatest
        return some (-1)
  | .ctrlT =>
      swapCharacters
      return none
  | .ctrlB =>
      linenoiseEditMoveLeft
      return none
  | .ctrlF =>
      linenoiseEditMoveRight
      return none
  | .ctrlP =>
      linenoiseEditHistoryNext .prev
      return none
  | .ctrlN =>
      linenoiseEditHistoryNext .next
      return none
  | .esc =>
      escapeSequence
      return none
  | .ctrlU =>
      deleteLine
      return none
  | .ctrlK =>
      deleteToEnd
      return none
  | .ctrlA =>
      linenoiseEditMoveHome
      return none
  | .ctrlE =>
      linenoiseEditMoveEnd
      return none
  | .ctrlL =>
      -- the clear sequence is only printed
      refreshLine
      return none
  | .ctrlW =>
      linenoiseEditDeletePrevWord
      return none
  | .other =>
      let failed ← linenoiseEditInsert c
      return if failed ≠ 0 then some (-1) else none

/-! ## The loops -/

/-- `while(1)` of `linenoiseEdit`. -/
def editLoop : Nat → ShellExec Int
  | 0 => throw .outOfFuel
  | fuel + 1 => do
      let c ← readByte
      match ← handleKey c with
      | some value => return value
      | none => editLoop fuel

/-- `getColumns`. -/
def getColumns : Nat := 80

/-- `linenoiseEdit` adds the empty line to the history and reads keys until one
ends the edit. -/
def linenoiseEdit (buf : Nat → Byte) (buflen : Nat) (prompt : List Byte) :
    ShellExec Int := do
  setLine
    { buf := Function.update buf 0 0
      buflen := sizeSub buflen 1
      prompt := prompt
      plen := prompt.length
      pos := 0
      len := 0
      cols := getColumns
      historyIndex := 0 }
  let _ ← linenoiseHistoryAdd []
  if write prompt.length = -1 then return -1
  else
    let shell ← get
    editLoop (shell.input.length + 1)

/-- `linenoiseRaw` of an input that is a terminal. -/
def linenoiseRaw (buf : Nat → Byte) (buflen : Nat) (prompt : List Byte) :
    ShellExec Int :=
  if buflen = 0 then return -1
  else linenoiseEdit buf buflen prompt

/-- `LINENOISE_MAX_LINE`. -/
def linenoiseMaxLine : Nat := 4096

/-- `linenoise`, with what its frame holds when it is entered. -/
def linenoise (frame : Nat → Byte) (prompt : List Byte) :
    ShellExec Pointer := do
  let count ← linenoiseRaw frame linenoiseMaxLine prompt
  if count = -1 then return 0
  else
    let string ← lineString
    strdup string

/-- `"x64>"`. -/
def shellPrompt : List Byte := [0x78, 0x36, 0x34, 0x3e]

/-- The `while` loop of `main`. -/
def mainLoop (frames : Nat → Nat → Byte) : Nat → ShellExec Unit
  | 0 => throw .outOfFuel
  | fuel + 1 => do
      let shell ← get
      let line ← linenoise (frames shell.freed.length) shellPrompt
      if line = 0 then return ()
      else
        let _ ← heap (.free line)
        modify fun shell =>
          { shell with freed := shell.freed ++ [(shell.pool, shell.history)] }
        mainLoop frames fuel

/-- The state when `main` is entered. -/
def Machine.initial
    (bufAddress : BitVec 64) (line : LinenoiseState) (input : List Byte) :
    Machine where
  pool := Pool.initial bufAddress
  history := 0
  slots := fun _ => 0
  historyLen := 0
  strings := fun _ => []
  line := line
  input := input
  calls := []
  freed := []

end NopOS.Shell.Linenoise
