import NopOS.Console.Buffering

/-!
# The first flush on the serial console

The callback of the platform passes on every byte and returns `false`.  PDCLib
takes that for an error, so the flush which delivers the buffer also sets the
error flag, and every write after it is refused.
-/

namespace NopOS.Console.FirstFlush

open NopOS.Lib.IndexedBuffer
open NopOS.Console.Stdio
open NopOS.Console.Buffering

/-- A stream which refuses to write, after `sent` went to the console. -/
structure Stopped (output : Output Serial) (sent : Serial) : Prop where
  error : output.stream.status &&& ERRORFLAG = ERRORFLAG
  bufidx : output.stream.bufidx = 0
  device : output.device = sent

theorem setError_error (status : Status) :
    (status ||| ERRORFLAG) &&& ERRORFLAG = ERRORFLAG := by
  apply BitVec.eq_of_getLsbD_eq
  intro i inside
  rw [BitVec.getLsbD_and, BitVec.getLsbD_or]
  cases status.getLsbD i <;> simp

theorem writef_device (sent : Serial) (bytes : List Byte) :
    (writef sent bytes).device = sent ++ bytes := by
  change bytes.foldl isaSerialConsolePutchar sent = _
  induction bytes generalizing sent with
  | nil => exact (List.append_nil _).symm
  | cons byte bytes induction =>
      rw [List.foldl_cons, induction, isaSerialConsolePutchar,
        List.append_assoc, List.singleton_append]

section Flush

variable {output : Output Serial}

/-- A flush sends the buffer and reports an error. -/
theorem flushbuffer_fileops (nonempty : output.stream.bufidx ≠ 0) :
    ∃ next,
      flushbuffer fileops output = (EOF, next) ∧
        Stopped next
          (output.device ++
            slice output.stream.buffer 0 output.stream.bufidx) := by
  rw [flushbuffer, flushLoop, dif_neg nonempty.symm]
  have refuses :
      ¬ (fileops.write output.device (toWrite output 0)).result = true :=
    Bool.false_ne_true
  have all :
      (fileops.write output.device (toWrite output 0)).numBytesWritten =
        output.stream.bufidx :=
    length_slice _ _ _
  simp only [dif_neg refuses]
  refine ⟨_, rfl, ?_, ?_, ?_⟩
  · exact setError_error output.stream.status
  · change
      output.stream.bufidx -
          (0 + (fileops.write output.device
            (toWrite output 0)).numBytesWritten) = 0
    rw [all]
    omega
  · exact writef_device output.device (toWrite output 0)

end Flush

/-! ## Buffered streams -/

section Buffered

variable {output : Output Serial} {pending : List Byte}

theorem flushbuffer_buffered
    (buffered : Buffered output pending) (nonempty : pending ≠ []) :
    ∃ next,
      flushbuffer fileops output = (EOF, next) ∧
        Stopped next (output.device ++ pending) := by
  have waiting : output.stream.bufidx ≠ 0 := by
    rw [buffered.bufidx]
    exact fun empty => nonempty (List.length_eq_zero_iff.1 empty)
  have flushed := flushbuffer_fileops waiting
  rwa [buffered.bufidx, buffered.content] at flushed

/-- A character that flushes is sent, with `EOF` for an answer. -/
theorem fputcUnlocked_flushes
    (buffered : Buffered output pending) {c : CInt}
    (flushes : Flushes pending (c.setWidth 8)) :
    ∃ next,
      fputcUnlocked fileops c output = (EOF, next) ∧
        Stopped next (output.device ++ (pending ++ [c.setWidth 8])) := by
  rcases fputcUnlocked_buffered fileops buffered c with
    ⟨stored, holds, device, writes⟩
  rcases flushbuffer_buffered holds (by simp) with ⟨next, flushed, stopped⟩
  have failed : EOF ≠ (0 : CInt) := by decide
  refine ⟨next, ?_, ?_⟩
  · rw [writes, if_pos flushes, flushed]
    simp only [if_neg failed]
  · rwa [device] at stopped

/-- An inner loop which fills the buffer ends in the failed flush. -/
theorem sizeLoop_full
    (ptr : Nat → Byte) (buffered : Buffered output pending)
    (left index offset : Nat) (short : pending.length < BUFSIZ)
    (full : BUFSIZ ≤ pending.length + left) :
    ∃ next, sizeLoop fileops ptr left index offset output = .error next := by
  induction left generalizing output pending index offset with
  | zero => omega
  | succ left induction =>
      have stored := buffered.putByte (ptr index)
      rw [sizeLoop]
      by_cases filled : pending.length + 1 = BUFSIZ
      · rcases flushbuffer_buffered stored (by simp) with
          ⟨next, flushed, -⟩
        refine ⟨next, ?_⟩
        simp only [if_pos ((buffered.full_iff (ptr index)).2 filled), flushed,
          if_true]
      · have length : (pending ++ [ptr index]).length = pending.length + 1 := by
          rw [List.length_append, List.length_singleton]
        rcases induction stored (index + 1)
            (if ptr index = newline then
              (output.putByte (ptr index)).stream.bufidx
            else offset)
            (by omega) (by omega) with
          ⟨next, fails⟩
        refine ⟨next, ?_⟩
        simp only [if_neg (mt (buffered.full_iff (ptr index)).1 filled)]
        exact fails

/-- A write that fills the buffer ends early. -/
theorem nmembLoop_full
    (ptr : Nat → Byte) (size : Nat) (buffered : Buffered output pending)
    (left nmembI offset : Nat) (short : pending.length < BUFSIZ)
    (full : BUFSIZ ≤ pending.length + left * size) :
    ∃ count next,
      nmembLoop fileops ptr size left nmembI offset output =
          .error (count, next) ∧
        count < nmembI + left := by
  induction left generalizing output pending nmembI offset with
  | zero => omega
  | succ left induction =>
      have split : (left + 1) * size = size + left * size := by ring
      rw [split] at full
      rw [nmembLoop]
      by_cases fits : pending.length + size < BUFSIZ
      · rcases sizeLoop_fits fileops ptr buffered size (nmembI * size) offset
            fits with
          ⟨position, middle, loops, holds, -, -⟩
        have length :
            (pending ++ slice ptr (nmembI * size) size).length =
              pending.length + size := by
          rw [List.length_append, length_slice]
        rcases induction holds (nmembI + 1) position (by omega)
            (by omega) with
          ⟨count, next, fails, fewer⟩
        refine ⟨count, next, ?_, by omega⟩
        rw [loops]
        exact fails
      · rcases sizeLoop_full ptr buffered size (nmembI * size) offset short
            (by omega) with
          ⟨next, fails⟩
        refine ⟨nmembI, next, ?_, by omega⟩
        rw [fails]

theorem fwriteFinish_newline
    (buffered : Buffered output pending) (nmemb : Nat)
    {offset : Nat} (newlineSeen : offset ≠ 0) :
    (fwriteFinish fileops nmemb offset output).1 = nmemb - 1 := by
  have lineMode : IOLBF ≠ IONBF := by decide
  have waiting : (output.setBufidx offset).stream.bufidx ≠ 0 := newlineSeen
  rcases flushbuffer_fileops waiting with ⟨next, flushed, -⟩
  rw [fwriteFinish, buffered.mode_eq, if_neg lineMode, if_pos rfl, flushed]
  rfl

/-- Objects which do not stay in the buffer are not all reported written. -/
theorem fwriteUnlocked_flushes
    (buffered : Buffered output pending) (objects : Objects)
    (short : pending.length < BUFSIZ)
    (flushes : ¬ Quiet pending objects.bytes) :
    (fwriteUnlocked fileops objects output).1 < objects.nmemb := by
  rcases buffered.prepwrite with ⟨prepared, prepares, ready, -⟩
  have started : (0 : CInt) ≠ EOF := by decide
  have positive := objects.nmembPositive
  rw [fwriteUnlocked, prepares]
  simp only [if_neg started]
  by_cases room :
      pending.length + objects.nmemb * objects.size < BUFSIZ
  · rcases nmembLoop_fits fileops objects.ptr objects.size ready
        objects.nmemb 0 0 room with
      ⟨position, next, loops, holds, -, zero⟩
    rw [Nat.zero_mul] at zero
    have newlineSeen : position ≠ 0 := by
      intro front
      apply flushes
      refine ⟨(zero.1 front).2, ?_⟩
      rwa [List.length_append, Objects.bytes, length_slice]
    simp only [loops]
    rw [fwriteFinish_newline holds _ newlineSeen]
    omega
  · rcases nmembLoop_full objects.ptr objects.size ready objects.nmemb 0 0
        short (by omega) with
      ⟨count, next, fails, fewer⟩
    simp only [fails]
    omega

end Buffered

/-! ## Stopped streams -/

namespace Stopped

variable {output : Output Serial} {sent : Serial}

theorem prepwrite (stopped : Stopped output sent) :
    ∃ next, prepwrite output = (EOF, next) ∧ Stopped next sent := by
  have refused :
      output.stream.status &&&
          (FREAD ||| ERRORFLAG ||| WIDESTREAM ||| EOFFLAG) ≠ 0 := by
    intro clear
    have masked :
        (FREAD ||| ERRORFLAG ||| WIDESTREAM ||| EOFFLAG) &&& ERRORFLAG =
          ERRORFLAG := by decide
    have error := stopped.error
    rw [← masked, ← BitVec.and_assoc, clear] at error
    exact absurd error (by decide)
  refine ⟨_, if_pos (.inr (.inr (.inl refused))), ?_, ?_, ?_⟩
  · exact setError_error output.stream.status
  · exact stopped.bufidx
  · exact stopped.device

theorem fputcUnlocked (stopped : Stopped output sent) (c : CInt) :
    ∃ next,
      fputcUnlocked fileops c output = (EOF, next) ∧ Stopped next sent := by
  rcases stopped.prepwrite with ⟨next, refuses, still⟩
  refine ⟨next, ?_, still⟩
  rw [Stdio.fputcUnlocked, refuses]
  simp only [if_true]

/-- A stopped stream takes no object. -/
theorem fwriteUnlocked (stopped : Stopped output sent) (objects : Objects) :
    (fwriteUnlocked fileops objects output).1 = 0 := by
  rcases stopped.prepwrite with ⟨next, refuses, -⟩
  rw [Stdio.fwriteUnlocked, refuses]
  simp only [if_true]

theorem printUnlocked (stopped : Stopped output sent) (text : List Byte) :
    Stopped (printUnlocked fileops text output) sent := by
  induction text generalizing output with
  | nil => exact stopped
  | cons byte text induction =>
      rcases stopped.fputcUnlocked (byte.setWidth 32) with
        ⟨next, refuses, still⟩
      rw [printUnlocked_cons, refuses]
      exact induction still

theorem fflushUnlocked (stopped : Stopped output sent) :
    fflushUnlocked fileops output = (0, output) :=
  flushbuffer_empty fileops stopped.bufidx

end Stopped

/-- Formatted output stops at its first byte which flushes; the rest is lost. -/
theorem printUnlocked_flushes
    {output : Output Serial} {pending before rest : List Byte} {byte : Byte}
    (buffered : Buffered output pending) (quiet : Quiet pending before)
    (flushes : Flushes (pending ++ before) byte) :
    Stopped (printUnlocked fileops (before ++ byte :: rest) output)
      (output.device ++ (pending ++ before ++ [byte])) := by
  rcases printUnlocked_quiet fileops buffered quiet with ⟨holds, device⟩
  have same : (byte.setWidth 32).setWidth 8 = byte := by simp
  have flushesByte :
      Flushes (pending ++ before) ((byte.setWidth 32).setWidth 8) := by
    rwa [same]
  rcases fputcUnlocked_flushes holds flushesByte with
    ⟨next, writes, stopped⟩
  rw [same, device] at stopped
  rw [printUnlocked_append, printUnlocked_cons, writes]
  exact stopped.printUnlocked rest

end NopOS.Console.FirstFlush
