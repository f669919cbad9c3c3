import NopOS.Lib.IndexedBuffer

/-!
# Buffered output of PDCLib

Writing to a stream, as PDCLib does it over the callback `ops->write` of a
platform, and the callback and the `stdout` of this platform.  The locks
around the public functions are left out.  A callback is asked for two things:
it reports no more bytes than it was given, and it does not report success
without having written anything.
-/

namespace NopOS.Console.Stdio

open NopOS.Lib.IndexedBuffer

/-- A character. -/
abbrev Byte := BitVec 8

/-- `int`. -/
abbrev CInt := BitVec 32

/-- `EOF`. -/
def EOF : CInt := -1

/-- `EINVAL`. -/
def EINVAL : Nat := 22

/-- `BUFSIZ`, the size of a stream's buffer. -/
def BUFSIZ : Nat := 1024

/-- The character that flushes a line buffered stream. -/
def newline : Byte := 10

/-! ## Status flags -/

/-- The status word of a stream. -/
abbrev Status := BitVec 32

/-- Line buffered. -/
def IOLBF : Status := 2

/-- Not buffered. -/
def IONBF : Status := 4

/-- The mode flag for reading. -/
def FREAD : Status := 8

/-- The mode flag for writing. -/
def FWRITE : Status := 16

/-- The mode flag for appending. -/
def FAPPEND : Status := 32

/-- The mode flag for reading and writing. -/
def FRW : Status := 64

/-- An error has occurred. -/
def ERRORFLAG : Status := 1024

/-- The end of the file was met. -/
def EOFFLAG : Status := 2048

/-- The stream is wide. -/
def WIDESTREAM : Status := 4096

/-- The stream is a byte stream. -/
def BYTESTREAM : Status := 8192

/-- The stream is not freed when it is closed. -/
def STATIC : Status := 32768

/-! ## Streams and their callbacks -/

/-- What a write callback returns: its result and `*numBytesWritten`. -/
structure WriteResult (Device : Type) where
  result : Bool
  numBytesWritten : Nat
  device : Device

/-- A `write` operation that reports no more than it was given, and where it
succeeds some of it. -/
structure Fileops (Device : Type) where
  write : Device → List Byte → WriteResult Device
  writtenLe :
    ∀ device bytes, (write device bytes).numBytesWritten ≤ bytes.length
  progress :
    ∀ device bytes,
      bytes ≠ [] → (write device bytes).result = true →
        0 < (write device bytes).numBytesWritten

/-- `struct _PDCLIB_file`. -/
structure File where
  buffer : Nat → Byte
  bufsize : Nat
  bufidx : Nat
  bufend : Nat
  ungetidx : Nat
  status : Status
  offset : Int

/-- A stream with what it is connected to. -/
structure Output (Device : Type) where
  stream : File
  device : Device
  errno : Nat

variable {Device : Type}

namespace Output

/-- The stream with another status word. -/
def setStatus (output : Output Device) (status : Status) :
    Output Device :=
  { output with stream := { output.stream with status := status } }

/-- The stream with another fill of its buffer. -/
def setBufidx (output : Output Device) (bufidx : Nat) : Output Device :=
  { output with stream := { output.stream with bufidx := bufidx } }

/-- `memmove(stream->buffer, stream->buffer + source, count)`. -/
def moveBuffer (output : Output Device) (source count : Nat) :
    Output Device :=
  { output with
    stream :=
      { output.stream with
        buffer := moveToFront output.stream.buffer source count } }

/-- `stream->buffer[stream->bufidx++] = byte`. -/
def putByte (output : Output Device) (byte : Byte) : Output Device :=
  { output with
    stream :=
      { output.stream with
        buffer :=
          Function.update output.stream.buffer output.stream.bufidx byte
        bufidx := output.stream.bufidx + 1 } }

/-- After a call of `ops->write`. -/
def wrote (output : Output Device) (answer : WriteResult Device) :
    Output Device :=
  { output with
    stream :=
      { output.stream with
        offset := output.stream.offset + answer.numBytesWritten }
    device := answer.device }

end Output

/-! ## Writing -/

/-- `_PDCLIB_prepwrite` refuses a stream that is being read or is not open for
writing. -/
def prepwrite (output : Output Device) : CInt × Output Device :=
  if output.stream.bufidx < output.stream.bufend ∨
      0 < output.stream.ungetidx ∨
      output.stream.status &&&
          (FREAD ||| ERRORFLAG ||| WIDESTREAM ||| EOFFLAG) ≠ 0 ∨
      output.stream.status &&& (FWRITE ||| FAPPEND ||| FRW) = 0 then
    (EOF,
      { output.setStatus (output.stream.status ||| ERRORFLAG) with
        errno := EINVAL })
  else
    (0, output.setStatus (output.stream.status ||| (FWRITE ||| BYTESTREAM)))

section Operations

variable (ops : Fileops Device)

/-- The bytes handed to `ops->write` in a turn of the loop of the flush. -/
def toWrite (output : Output Device) (written : Nat) : List Byte :=
  slice output.stream.buffer written (output.stream.bufidx - written)

/-- The loop of `_PDCLIB_flushbuffer`, each round of which writes what is left.
-/
def flushLoop
    (output : Output Device) (written : Nat)
    (inside : written ≤ output.stream.bufidx) :
    CInt × Output Device :=
  if finished : written = output.stream.bufidx then
    (0, output.setBufidx 0)
  else
    let answer := ops.write output.device (toWrite output written)
    have justWrote :
        answer.numBytesWritten ≤ output.stream.bufidx - written :=
      (ops.writtenLe _ _).trans_eq (length_slice _ _ _)
    let total := written + answer.numBytesWritten
    let next := output.wrote answer
    if accepted : answer.result then
      flushLoop next total (show total ≤ output.stream.bufidx by omega)
    else
      let next := next.setStatus (next.stream.status ||| ERRORFLAG)
      let left := next.stream.bufidx - total
      (EOF, (next.setBufidx left).moveBuffer total left)
termination_by output.stream.bufidx - written
decreasing_by
  have nonempty : toWrite output written ≠ [] := by
    intro empty
    have length := congrArg List.length empty
    simp only [toWrite, length_slice, List.length_nil] at length
    omega
  have progress : 0 < answer.numBytesWritten :=
    ops.progress output.device _ nonempty accepted
  change output.stream.bufidx - total < output.stream.bufidx - written
  omega

/-- `_PDCLIB_flushbuffer` writes the buffer from its start. -/
def flushbuffer (output : Output Device) : CInt × Output Device :=
  flushLoop ops output 0 (Nat.zero_le _)

/-- `fputc_unlocked` flushes a full buffer, and a line where lines are buffered.
-/
def fputcUnlocked (c : CInt) (output : Output Device) :
    CInt × Output Device :=
  let (prepared, output) := prepwrite output
  if prepared = EOF then (EOF, output)
  else
    let output := output.putByte (c.setWidth 8)
    if output.stream.bufidx = output.stream.bufsize ∨
        (output.stream.status &&& IOLBF ≠ 0 ∧ c.setWidth 8 = newline) ∨
        output.stream.status &&& IONBF ≠ 0 then
      let (flushed, output) := flushbuffer ops output
      (if flushed = 0 then c else EOF, output)
    else (c, output)

/-- What `fwrite` is given: objects one behind the other at `ptr`. -/
structure Objects where
  ptr : Nat → Byte
  size : Nat
  nmemb : Nat
  sizePositive : 1 ≤ size
  nmembPositive : 1 ≤ nmemb

/-- The bytes of an array of objects. -/
def Objects.bytes (objects : Objects) : List Byte :=
  slice objects.ptr 0 (objects.nmemb * objects.size)

/--
The inner loop of `fwrite`: `left` bytes from `index` on.  It carries the
position behind the last newline and ends early when a flush fails.
-/
def sizeLoop (ptr : Nat → Byte) :
    Nat → Nat → Nat → Output Device →
      Except (Output Device) (Nat × Output Device)
  | 0, _, offset, output => .ok (offset, output)
  | left + 1, index, offset, output =>
      let output := output.putByte (ptr index)
      let offset :=
        if ptr index = newline then output.stream.bufidx else offset
      if output.stream.bufidx = output.stream.bufsize then
        let (flushed, output) := flushbuffer ops output
        if flushed = EOF then .error output
        else sizeLoop ptr left (index + 1) 0 output
      else sizeLoop ptr left (index + 1) offset output

/-- The outer loop: `left` objects from the object `nmembI` on. -/
def nmembLoop (ptr : Nat → Byte) (size : Nat) :
    Nat → Nat → Nat → Output Device →
      Except (Nat × Output Device) (Nat × Output Device)
  | 0, _, offset, output => .ok (offset, output)
  | left + 1, nmembI, offset, output =>
      match sizeLoop ops ptr size (nmembI * size) offset output with
      | .error output => .error (nmembI, output)
      | .ok (offset, output) =>
          nmembLoop ptr size left (nmembI + 1) offset output

/-- What `fwrite` does once all objects are in the buffer. -/
def fwriteFinish
    (nmemb offset : Nat) (output : Output Device) :
    Nat × Output Device :=
  let mode := output.stream.status &&& (IONBF ||| IOLBF)
  if mode = IONBF then
    let (flushed, output) := flushbuffer ops output
    if flushed = EOF then (nmemb - 1, output) else (nmemb, output)
  else if mode = IOLBF then
    let bufidx := output.stream.bufidx
    let (flushed, output) := flushbuffer ops (output.setBufidx offset)
    if flushed = EOF then (nmemb - 1, output.setBufidx bufidx)
    else
      let output := output.setBufidx (bufidx - offset)
      (nmemb, output.moveBuffer offset output.stream.bufidx)
  else (nmemb, output)

/-- `fwrite_unlocked` copies object after object, then flushes by the buffering
mode. -/
def fwriteUnlocked (objects : Objects) (output : Output Device) :
    Nat × Output Device :=
  let (prepared, output) := prepwrite output
  if prepared = EOF then (0, output)
  else
    match nmembLoop ops objects.ptr objects.size objects.nmemb 0 0 output with
    | .error (nmembI, output) => (nmembI, output)
    | .ok (offset, output) => fwriteFinish ops objects.nmemb offset output

/-- The output of the `printf` family, which drops what `putc` returns. -/
def printUnlocked (bytes : List Byte) (output : Output Device) :
    Output Device :=
  bytes.foldl
    (fun output byte => (fputcUnlocked ops (byte.setWidth 32) output).2)
    output

/-- `fflush` of one stream. -/
def fflushUnlocked (output : Output Device) : CInt × Output Device :=
  flushbuffer ops output

end Operations

/-! ## The platform -/

/-- The bytes the serial console was passed, in order. -/
abbrev Serial := List Byte

/-- `isa_serial_console::putchar` sends one character. -/
def isaSerialConsolePutchar (sent : Serial) (ch : Byte) : Serial :=
  sent ++ [ch]

/-- `writef` sends every byte and returns false. -/
def writef (sent : Serial) (bytes : List Byte) : WriteResult Serial where
  result := false
  numBytesWritten := bytes.length
  device := bytes.foldl isaSerialConsolePutchar sent

/-- `_PDCLIB_fileops`. -/
def fileops : Fileops Serial where
  write := writef
  writtenLe _ _ := Nat.le_refl _
  progress _ _ _ accepted := by cases accepted

/-- The static `stdout`. -/
def stdout : Output Serial where
  stream :=
    { buffer := fun _ => 0
      bufsize := BUFSIZ
      bufidx := 0
      bufend := 0
      ungetidx := 0
      status := IOLBF ||| FWRITE ||| STATIC
      offset := 0 }
  device := []
  errno := 0

end NopOS.Console.Stdio
