import NopOS.Console.Stdio

/-!
# The line buffer and its first flush

`Buffered` describes a stream which works, by the bytes which wait in its
buffer, and `Stopped` one whose flush has failed.  What a write does to a
buffered stream depends on whether the bytes stay in the buffer: no newline
among them and the buffer not filled.  With the callback of the platform the
first flush of a buffer which is not empty passes the bytes on and stops the
stream.
-/

namespace NopOS.Console.Buffering

open NopOS.Lib.IndexedBuffer
open NopOS.Console.Stdio

variable {Device : Type}

/-- The status of `stdout` before it is written to. -/
def lineBuffered : Status := IOLBF ||| FWRITE ||| STATIC

/-- A line-buffered stream in whose buffer `pending` waits. -/
structure Buffered (output : Output Device) (pending : List Byte) : Prop where
  status :
    output.stream.status = lineBuffered ∨
      output.stream.status = lineBuffered ||| BYTESTREAM
  bufsize : output.stream.bufsize = BUFSIZ
  bufend : output.stream.bufend = 0
  ungetidx : output.stream.ungetidx = 0
  bufidx : output.stream.bufidx = pending.length
  content : slice output.stream.buffer 0 pending.length = pending

/-- The byte makes the stream flush. -/
def Flushes (pending : List Byte) (byte : Byte) : Prop :=
  byte = newline ∨ pending.length + 1 = BUFSIZ

instance (pending : List Byte) (byte : Byte) :
    Decidable (Flushes pending byte) :=
  inferInstanceAs (Decidable (_ ∨ _))

/-- All of the text stays in the buffer. -/
def Quiet (pending text : List Byte) : Prop :=
  newline ∉ text ∧ (pending ++ text).length < BUFSIZ

/-- The standard stream starts with an empty buffer. -/
theorem buffered_stdout : Buffered stdout [] where
  status := .inl rfl
  bufsize := rfl
  bufend := rfl
  ungetidx := rfl
  bufidx := rfl
  content := rfl

/-! ## Quiet text -/

section Quiet

variable {pending text before rest : List Byte} {byte : Byte}

theorem quiet_cons_iff :
    Quiet pending (byte :: text) ↔
      ¬ Flushes pending byte ∧ Quiet (pending ++ [byte]) text := by
  simp only [Quiet, Flushes, List.mem_cons, List.length_append,
    List.length_cons, List.length_nil, not_or]
  constructor
  · rintro ⟨⟨noFirst, noLater⟩, short⟩
    exact ⟨⟨Ne.symm noFirst, by omega⟩, noLater, by omega⟩
  · rintro ⟨⟨noFirst, -⟩, noLater, short⟩
    exact ⟨⟨Ne.symm noFirst, noLater⟩, by omega⟩

theorem quiet_singleton_iff (short : pending.length < BUFSIZ) :
    Quiet pending [byte] ↔ ¬ Flushes pending byte := by
  rw [quiet_cons_iff]
  constructor
  · exact And.left
  · intro stays
    refine ⟨stays, List.not_mem_nil, ?_⟩
    have notFull : pending.length + 1 ≠ BUFSIZ := fun full => stays (.inr full)
    rw [List.append_nil, List.length_append, List.length_singleton]
    omega

/-- Text which does not stay in the buffer has a first byte which flushes. -/
theorem quiet_or_flushes
    (pending text : List Byte) (short : pending.length < BUFSIZ) :
    Quiet pending text ∨
      ∃ before byte rest,
        text = before ++ byte :: rest ∧
          Quiet pending before ∧ Flushes (pending ++ before) byte := by
  induction text generalizing pending with
  | nil => exact .inl ⟨List.not_mem_nil, by simpa using short⟩
  | cons first text induction =>
      by_cases flushes : Flushes pending first
      · refine .inr ⟨[], first, text, rfl, ?_, by simpa using flushes⟩
        exact ⟨List.not_mem_nil, by simpa using short⟩
      · have single := (quiet_singleton_iff short).2 flushes
        rcases induction (pending ++ [first]) single.2 with
          quiet | ⟨before, byte, rest, rfl, quiet, flushesLater⟩
        · exact .inl (quiet_cons_iff.2 ⟨flushes, quiet⟩)
        · refine .inr ⟨first :: before, byte, rest, rfl, ?_, ?_⟩
          · exact quiet_cons_iff.2 ⟨flushes, quiet⟩
          · rwa [List.append_assoc, List.singleton_append] at flushesLater

theorem not_quiet_of_flushes
    (flushes : Flushes (pending ++ before) byte) :
    ¬ Quiet pending (before ++ byte :: rest) := by
  rintro ⟨noNewline, short⟩
  rcases flushes with rfl | full
  · exact noNewline (by simp)
  · simp only [List.length_append, List.length_cons] at short full
    omega

end Quiet

/-! ## Steps within the buffer -/

namespace Buffered

variable {output : Output Device} {pending : List Byte}

theorem unbuffered_clear (buffered : Buffered output pending) :
    output.stream.status &&& IONBF = 0 := by
  rcases buffered.status with same | same <;> rw [same] <;> rfl

theorem mode_eq (buffered : Buffered output pending) :
    output.stream.status &&& (IONBF ||| IOLBF) = IOLBF := by
  rcases buffered.status with same | same <;> rw [same] <;> rfl

theorem line_set (buffered : Buffered output pending) :
    output.stream.status &&& IOLBF ≠ 0 := by
  rcases buffered.status with same | same <;> rw [same] <;> decide

/-- A stream that buffers a line may be written to. -/
theorem prepwrite (buffered : Buffered output pending) :
    ∃ next,
      prepwrite output = (0, next) ∧
        Buffered next pending ∧ next.device = output.device := by
  have accepts :
      output.stream.status &&&
            (FREAD ||| ERRORFLAG ||| WIDESTREAM ||| EOFFLAG) = 0 ∧
        output.stream.status &&& (FWRITE ||| FAPPEND ||| FRW) ≠ 0 := by
    rcases buffered.status with same | same <;> rw [same] <;> decide
  have oriented :
      output.stream.status ||| (FWRITE ||| BYTESTREAM) =
        lineBuffered ||| BYTESTREAM := by
    rcases buffered.status with same | same <;> rw [same] <;> rfl
  have legal :
      ¬ (output.stream.bufidx < output.stream.bufend ∨
          0 < output.stream.ungetidx ∨
          output.stream.status &&&
              (FREAD ||| ERRORFLAG ||| WIDESTREAM ||| EOFFLAG) ≠ 0 ∨
          output.stream.status &&& (FWRITE ||| FAPPEND ||| FRW) = 0) := by
    rintro (read | unread | refused | noWrite)
    · rw [buffered.bufend] at read
      exact Nat.not_lt_zero _ read
    · rw [buffered.ungetidx] at unread
      exact Nat.lt_irrefl _ unread
    · exact refused accepts.1
    · exact accepts.2 noWrite
  refine
    ⟨output.setStatus (output.stream.status ||| (FWRITE ||| BYTESTREAM)),
      by rw [Stdio.prepwrite, if_neg legal], ?_, rfl⟩
  exact
    { status := .inr oriented
      bufsize := buffered.bufsize
      bufend := buffered.bufend
      ungetidx := buffered.ungetidx
      bufidx := buffered.bufidx
      content := buffered.content }

theorem putByte (buffered : Buffered output pending) (byte : Byte) :
    Buffered (output.putByte byte) (pending ++ [byte]) where
  status := buffered.status
  bufsize := buffered.bufsize
  bufend := buffered.bufend
  ungetidx := buffered.ungetidx
  bufidx := by
    rw [List.length_append]
    exact congrArg (· + 1) buffered.bufidx
  content := by
    change
      slice
          (Function.update output.stream.buffer output.stream.bufidx byte)
          0 (pending ++ [byte]).length = _
    rw [List.length_append, buffered.bufidx]
    exact (slice_update _ _ _).trans
      (congrArg (· ++ [byte]) buffered.content)

/-- The buffer is full when the last byte which fits was stored. -/
theorem full_iff
    (buffered : Buffered output pending) (byte : Byte) :
    (output.putByte byte).stream.bufidx =
        (output.putByte byte).stream.bufsize ↔
      pending.length + 1 = BUFSIZ := by
  change output.stream.bufidx + 1 = output.stream.bufsize ↔ _
  rw [buffered.bufidx, buffered.bufsize]

end Buffered

theorem flushbuffer_empty
    (ops : Fileops Device) {output : Output Device}
    (empty : output.stream.bufidx = 0) :
    flushbuffer ops output = (0, output) := by
  have unchanged : output.setBufidx 0 = output := by
    rw [← empty]
    rfl
  rw [flushbuffer, flushLoop, dif_pos empty.symm, unchanged]

section Writes

variable {output : Output Device} {pending : List Byte}

/-- A character joins the pending ones, and some of them flush. -/
theorem fputcUnlocked_buffered
    (ops : Fileops Device) (buffered : Buffered output pending) (c : CInt) :
    ∃ next,
      Buffered next (pending ++ [c.setWidth 8]) ∧
        next.device = output.device ∧
        fputcUnlocked ops c output =
          if Flushes pending (c.setWidth 8) then
            (if (flushbuffer ops next).1 = 0 then c else EOF,
              (flushbuffer ops next).2)
          else (c, next) := by
  rcases buffered.prepwrite with ⟨prepared, prepares, ready, device⟩
  have stored := ready.putByte (c.setWidth 8)
  have flushes :
      ((prepared.putByte (c.setWidth 8)).stream.bufidx =
            (prepared.putByte (c.setWidth 8)).stream.bufsize ∨
          ((prepared.putByte (c.setWidth 8)).stream.status &&& IOLBF ≠ 0 ∧
              c.setWidth 8 = newline) ∨
          (prepared.putByte (c.setWidth 8)).stream.status &&& IONBF ≠ 0) ↔
        Flushes pending (c.setWidth 8) := by
    rw [ready.full_iff, Flushes]
    simp only [stored.line_set, stored.unbuffered_clear, ne_eq,
      not_false_eq_true, true_and, not_true_eq_false, or_false]
    exact or_comm
  have started : (0 : CInt) ≠ EOF := by decide
  refine ⟨_, stored, device, ?_⟩
  rw [fputcUnlocked, prepares]
  simp only [if_neg started, flushes]

theorem fwriteFinish_noNewline
    (ops : Fileops Device) (buffered : Buffered output pending)
    (nmemb : Nat) :
    fwriteFinish ops nmemb 0 output = (nmemb, output) := by
  have lineMode : IOLBF ≠ IONBF := by decide
  have started : (0 : CInt) ≠ EOF := by decide
  have restored : (output.setBufidx 0).setBufidx output.stream.bufidx = output :=
    rfl
  have unmoved :
      output.moveBuffer 0 output.stream.bufidx = output := by
    rw [Output.moveBuffer, moveToFront_same]
  rw [fwriteFinish, buffered.mode_eq, if_neg lineMode, if_pos rfl,
    flushbuffer_empty ops rfl]
  simp only [if_neg started, Nat.sub_zero, restored, unmoved]

end Writes

/-! ## The loops of `fwrite` -/

section Loops

variable {output : Output Device} {pending : List Byte}

/-- As long as the buffer has room the inner loop only stores. -/
theorem sizeLoop_fits
    (ops : Fileops Device) (ptr : Nat → Byte)
    (buffered : Buffered output pending) (left index offset : Nat)
    (room : pending.length + left < BUFSIZ) :
    ∃ position next,
      sizeLoop ops ptr left index offset output = .ok (position, next) ∧
        Buffered next (pending ++ slice ptr index left) ∧
        next.device = output.device ∧
        (position = 0 ↔ offset = 0 ∧ newline ∉ slice ptr index left) := by
  induction left generalizing output pending index offset with
  | zero =>
      refine ⟨offset, output, rfl, ?_, rfl, ?_⟩
      · rwa [slice, List.append_nil]
      · simp [slice]
  | succ left induction =>
      have stored := buffered.putByte (ptr index)
      have notFull :
          ¬ (output.putByte (ptr index)).stream.bufidx =
              (output.putByte (ptr index)).stream.bufsize := by
        rw [buffered.full_iff]
        omega
      rcases induction stored (index + 1)
          (if ptr index = newline then
            (output.putByte (ptr index)).stream.bufidx
          else offset)
          (by
            rw [List.length_append, List.length_singleton]
            omega) with
        ⟨position, next, loops, holds, device, zero⟩
      refine ⟨position, next, ?_, ?_, device, ?_⟩
      · rw [sizeLoop]
        simp only [if_neg notFull]
        exact loops
      · rwa [List.append_assoc] at holds
      · rw [zero, slice, List.mem_cons, not_or]
        by_cases isNewline : ptr index = newline
        · have behind : (output.putByte (ptr index)).stream.bufidx ≠ 0 :=
            Nat.succ_ne_zero _
          rw [if_pos isNewline]
          constructor
          · rintro ⟨front, -⟩
            exact absurd front behind
          · rintro ⟨-, other, -⟩
            exact absurd isNewline.symm other
        · simp [isNewline, Ne.symm isNewline]

/-- What fits the buffer is copied as a whole. -/
theorem nmembLoop_fits
    (ops : Fileops Device) (ptr : Nat → Byte) (size : Nat)
    (buffered : Buffered output pending) (left nmembI offset : Nat)
    (room : pending.length + left * size < BUFSIZ) :
    ∃ position next,
      nmembLoop ops ptr size left nmembI offset output =
          .ok (position, next) ∧
        Buffered next
          (pending ++ slice ptr (nmembI * size) (left * size)) ∧
        next.device = output.device ∧
        (position = 0 ↔
          offset = 0 ∧
            newline ∉ slice ptr (nmembI * size) (left * size)) := by
  induction left generalizing output pending nmembI offset with
  | zero =>
      refine ⟨offset, output, rfl, ?_, rfl, ?_⟩
      · rwa [Nat.zero_mul, slice, List.append_nil]
      · simp [slice]
  | succ left induction =>
      have split : (left + 1) * size = size + left * size := by ring
      have later : (nmembI + 1) * size = nmembI * size + size := by ring
      rw [split] at room ⊢
      rcases sizeLoop_fits ops ptr buffered size (nmembI * size) offset
          (by omega) with
        ⟨position, middle, loops, holds, device, zero⟩
      rcases induction holds (nmembI + 1) position
          (by
            rw [List.length_append, length_slice]
            omega) with
        ⟨last, next, loopsLater, holdsLater, deviceLater, zeroLater⟩
      refine ⟨last, next, ?_, ?_, deviceLater.trans device, ?_⟩
      · rw [nmembLoop, loops]
        exact loopsLater
      · rw [slice_add, ← List.append_assoc, ← later]
        exact holdsLater
      · rw [zeroLater, zero, slice_add, ← later, List.mem_append, not_or,
          and_assoc]

end Loops

/-- A write that flushes nothing stays in the buffer. -/
theorem fwriteUnlocked_quiet
    (ops : Fileops Device) {output : Output Device} {pending : List Byte}
    (buffered : Buffered output pending) (objects : Objects)
    (quiet : Quiet pending objects.bytes) :
    ∃ next,
      fwriteUnlocked ops objects output = (objects.nmemb, next) ∧
        Buffered next (pending ++ objects.bytes) ∧
        next.device = output.device := by
  rcases buffered.prepwrite with ⟨prepared, prepares, ready, device⟩
  have started : (0 : CInt) ≠ EOF := by decide
  have room : pending.length + objects.nmemb * objects.size < BUFSIZ := by
    simpa [Objects.bytes] using quiet.2
  rcases nmembLoop_fits ops objects.ptr objects.size ready objects.nmemb 0 0
      room with
    ⟨position, next, loops, holds, deviceLater, zero⟩
  rw [Nat.zero_mul] at holds zero
  have noNewline : position = 0 := zero.2 ⟨rfl, quiet.1⟩
  subst noNewline
  refine ⟨next, ?_, holds, deviceLater.trans device⟩
  rw [fwriteUnlocked, prepares]
  simp only [if_neg started, loops]
  exact fwriteFinish_noNewline ops holds objects.nmemb

theorem printUnlocked_cons
    (ops : Fileops Device) (byte : Byte) (text : List Byte)
    (output : Output Device) :
    printUnlocked ops (byte :: text) output =
      printUnlocked ops text
        (fputcUnlocked ops (byte.setWidth 32) output).2 := rfl

theorem printUnlocked_append
    (ops : Fileops Device) (first second : List Byte)
    (output : Output Device) :
    printUnlocked ops (first ++ second) output =
      printUnlocked ops second (printUnlocked ops first output) :=
  List.foldl_append

/-- Nor does such a print leave it. -/
theorem printUnlocked_quiet
    (ops : Fileops Device) {output : Output Device}
    {pending text : List Byte} (buffered : Buffered output pending)
    (quiet : Quiet pending text) :
    Buffered (printUnlocked ops text output) (pending ++ text) ∧
      (printUnlocked ops text output).device = output.device := by
  induction text generalizing output pending with
  | nil => exact ⟨by rwa [List.append_nil], rfl⟩
  | cons byte text induction =>
      rcases quiet_cons_iff.1 quiet with ⟨stays, quietLater⟩
      have same : (byte.setWidth 32).setWidth 8 = byte := by simp
      rcases fputcUnlocked_buffered ops buffered (byte.setWidth 32) with
        ⟨next, holds, device, writes⟩
      rw [same] at holds writes
      rw [if_neg stays] at writes
      rcases induction holds quietLater with ⟨holdsLater, deviceLater⟩
      rw [List.append_assoc, List.singleton_append] at holdsLater
      rw [printUnlocked_cons, writes]
      exact ⟨holdsLater, deviceLater.trans device⟩

end NopOS.Console.Buffering
