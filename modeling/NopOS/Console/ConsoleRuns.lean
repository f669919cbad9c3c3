import NopOS.Console.FirstFlush

/-!
# Console output over a sequence of calls

Calls on `stdout` are performed one after the other, with a flush at the end.
Because the first flush which delivers anything also stops the stream, output
arrives complete and without a reported error only when that flush comes with
the last byte of all, and in a call which does not report it.
-/

namespace NopOS.Console.ConsoleRuns

open NopOS.Console.Stdio
open NopOS.Console.Buffering
open NopOS.Console.FirstFlush

/-- What a program does with `stdout`. -/
inductive Call where
  | fputc (c : CInt)
  | fwrite (objects : Objects)
  | print (text : List Byte)
  | fflush

/-- The bytes that a call hands to the stream. -/
def Call.bytes : Call → List Byte
  | .fputc c => [c.setWidth 8]
  | .fwrite objects => objects.bytes
  | .print text => text
  | .fflush => []

/-- All bytes which calls write, in order. -/
def written (calls : List Call) : List Byte :=
  calls.flatMap Call.bytes

section Operations

variable {Device : Type} (ops : Fileops Device)

/-- One call: whether it reports an error, and what it leaves. -/
def perform (output : Output Device) : Call → Bool × Output Device
  | .fputc c =>
      let (result, output) := fputcUnlocked ops c output
      (decide (result = EOF), output)
  | .fwrite objects =>
      let (result, output) := fwriteUnlocked ops objects output
      (decide (result ≠ objects.nmemb), output)
  | .print text => (false, printUnlocked ops text output)
  | .fflush =>
      let (result, output) := fflushUnlocked ops output
      (decide (result = EOF), output)

/-- Calls in order: whether one reports an error, and what they leave. -/
def performAll (output : Output Device) :
    List Call → Bool × Output Device
  | [] => (false, output)
  | call :: calls =>
      let (failed, output) := perform ops output call
      let (failedLater, output) := performAll output calls
      (failed || failedLater, output)

theorem performAll_cons
    (output : Output Device) (call : Call) (calls : List Call) :
    performAll ops output (call :: calls) =
      ((perform ops output call).1 ||
          (performAll ops (perform ops output call).2 calls).1,
        (performAll ops (perform ops output call).2 calls).2) := rfl

end Operations

/--
After a final flush the console was passed what the calls wrote, and no call
reported an error.
-/
def Delivers (calls : List Call) : Prop :=
  (performAll fileops stdout (calls ++ [.fflush])).1 = false ∧
    (performAll fileops stdout (calls ++ [.fflush])).2.device = written calls

/-! ## One call on a buffered stream -/

/-- The call leaves everything in the buffer. -/
def Call.StaysBuffered (pending : List Byte) : Call → Prop
  | .fputc c => c ≠ EOF ∧ Quiet pending [c.setWidth 8]
  | .fwrite objects => Quiet pending objects.bytes
  | .print text => Quiet pending text
  | .fflush => pending = []

/-- The last byte of the text is the first one which flushes. -/
def FlushesAtEnd (pending text : List Byte) : Prop :=
  ∃ before last,
    text = before ++ [last] ∧
      Quiet pending before ∧ Flushes (pending ++ before) last

/-- The call prints text which flushes at its end. -/
def Call.PrintsToFlush (pending : List Byte) : Call → Prop
  | .print text => FlushesAtEnd pending text
  | _ => False

theorem written_cons (call : Call) (calls : List Call) :
    written (call :: calls) = call.bytes ++ written calls :=
  List.flatMap_cons

theorem Objects.bytes_ne_nil (objects : Objects) : objects.bytes ≠ [] := by
  intro empty
  have length : objects.nmemb * objects.size = 0 := by
    simpa [Objects.bytes] using congrArg List.length empty
  have sizePositive := objects.sizePositive
  have nmembPositive := objects.nmembPositive
  have positive := Nat.mul_pos nmembPositive sizePositive
  omega

section Buffered

variable {output : Output Serial} {pending : List Byte} {call : Call}

/-- A call that flushes nothing succeeds. -/
theorem perform_stays
    (buffered : Buffered output pending) (short : pending.length < BUFSIZ)
    (stays : call.StaysBuffered pending) :
    ∃ next,
      perform fileops output call = (false, next) ∧
        Buffered next (pending ++ call.bytes) ∧
        next.device = output.device := by
  cases call with
  | fputc c =>
      rcases stays with ⟨notEof, quiet⟩
      rcases fputcUnlocked_buffered fileops buffered c with
        ⟨next, holds, device, writes⟩
      rw [if_neg ((quiet_singleton_iff short).1 quiet)] at writes
      refine ⟨next, ?_, holds, device⟩
      rw [perform, writes]
      simp only [notEof, decide_false]
  | fwrite objects =>
      rcases fwriteUnlocked_quiet fileops buffered objects stays with
        ⟨next, writes, holds, device⟩
      refine ⟨next, ?_, holds, device⟩
      rw [perform, writes]
      simp only [ne_eq, not_true_eq_false, decide_false]
  | print text =>
      rcases printUnlocked_quiet fileops buffered stays with ⟨holds, device⟩
      exact ⟨_, rfl, holds, device⟩
  | fflush =>
      have empty : output.stream.bufidx = 0 := by
        rw [buffered.bufidx, stays, List.length_nil]
      refine ⟨output, ?_, ?_, rfl⟩
      · rw [perform, fflushUnlocked, flushbuffer_empty fileops empty]
        rfl
      · rwa [Call.bytes, List.append_nil]

/-- A print that ends with a flush is sent, and the stream stops. -/
theorem perform_printsToFlush
    (buffered : Buffered output pending)
    (prints : call.PrintsToFlush pending) :
    ∃ next,
      perform fileops output call = (false, next) ∧
        Stopped next (output.device ++ (pending ++ call.bytes)) := by
  cases call with
  | print text =>
      rcases prints with ⟨before, last, rfl, quiet, flushes⟩
      have stopped :
          Stopped (printUnlocked fileops (before ++ [last]) output)
            (output.device ++ (pending ++ before ++ [last])) :=
        printUnlocked_flushes buffered quiet flushes
      rw [List.append_assoc] at stopped
      exact ⟨_, rfl, stopped⟩
  | fputc c => exact prints.elim
  | fwrite objects => exact prints.elim
  | fflush => exact prints.elim

/-- Any other call reports an error or loses some of its text. -/
theorem perform_otherwise
    (buffered : Buffered output pending) (short : pending.length < BUFSIZ)
    (leaves : ¬ call.StaysBuffered pending)
    (other : ¬ call.PrintsToFlush pending) :
    (perform fileops output call).1 = true ∨
      ∃ passed,
        Stopped (perform fileops output call).2 (output.device ++ passed) ∧
          passed.length < (pending ++ call.bytes).length := by
  cases call with
  | fputc c =>
      left
      rcases fputcUnlocked_buffered fileops buffered c with
        ⟨next, -, -, writes⟩
      by_cases flushes : Flushes pending (c.setWidth 8)
      · rcases fputcUnlocked_flushes buffered flushes with
          ⟨last, fails, -⟩
        rw [perform, fails]
        rfl
      · rw [if_neg flushes] at writes
        have eof : c = EOF := by
          by_contra notEof
          exact leaves ⟨notEof, (quiet_singleton_iff short).2 flushes⟩
        rw [perform, writes]
        simp only [eof, decide_true]
  | fwrite objects =>
      left
      have fewer := fwriteUnlocked_flushes buffered objects short leaves
      exact decide_eq_true (Nat.ne_of_lt fewer)
  | print text =>
      right
      rcases quiet_or_flushes pending text short with
        quiet | ⟨before, byte, rest, rfl, quiet, flushes⟩
      · exact absurd quiet leaves
      · refine
          ⟨pending ++ before ++ [byte],
            printUnlocked_flushes buffered quiet flushes, ?_⟩
        cases rest with
        | nil => exact absurd ⟨before, byte, rfl, quiet, flushes⟩ other
        | cons next rest =>
            simp only [Call.bytes, List.length_append, List.length_cons,
              List.length_nil]
            omega
  | fflush =>
      left
      rcases flushbuffer_buffered buffered leaves with ⟨next, fails, -⟩
      rw [perform, fflushUnlocked, fails]
      rfl

end Buffered

/-! ## Calls on a stopped stream -/

section Stopped

variable {output : Output Serial} {sent : Serial}

/-- A stopped stream sends nothing more. -/
theorem performAll_stopped
    (stopped : Stopped output sent) (calls : List Call)
    (succeeds : (performAll fileops output calls).1 = false) :
    (performAll fileops output calls).2.device = sent := by
  induction calls generalizing output with
  | nil => exact stopped.device
  | cons call calls induction =>
      rw [performAll_cons] at succeeds ⊢
      rcases Bool.or_eq_false_iff.1 succeeds with ⟨now, later⟩
      refine induction ?_ later
      cases call with
      | fputc c =>
          rcases stopped.fputcUnlocked c with ⟨next, refuses, -⟩
          rw [perform, refuses] at now
          have failed : decide (EOF = EOF) = false := now
          exact absurd failed (by decide)
      | fwrite objects =>
          have positive := objects.nmembPositive
          have all :
              (fwriteUnlocked fileops objects output).1 = objects.nmemb :=
            of_not_not (of_decide_eq_false now)
          rw [stopped.fwriteUnlocked objects] at all
          omega
      | print text => exact stopped.printUnlocked text
      | fflush =>
          rw [perform, stopped.fflushUnlocked]
          exact stopped

theorem performAll_silent
    (stopped : Stopped output sent) {calls : List Call}
    (silent : written calls = []) :
    (performAll fileops output calls).1 = false := by
  induction calls with
  | nil => rfl
  | cons call calls induction =>
      rw [written_cons, List.append_eq_nil_iff] at silent
      have unchanged : perform fileops output call = (false, output) := by
        cases call with
        | fputc c => exact absurd silent.1 (List.cons_ne_nil _ _)
        | fwrite objects =>
            exact absurd silent.1 (Objects.bytes_ne_nil objects)
        | print text =>
            have empty : text = [] := silent.1
            rw [empty]
            rfl
        | fflush =>
            rw [perform, stopped.fflushUnlocked]
            rfl
      rw [performAll_cons, unchanged, Bool.false_or]
      exact induction silent.2

end Stopped

/-! ## Whole sequences -/

/-- Delivery of calls on a stream in whose buffer `pending` waits. -/
def Delivered : List Byte → List Call → Prop
  | pending, [] => pending = []
  | pending, call :: calls =>
      (call.StaysBuffered pending ∧
          Delivered (pending ++ call.bytes) calls) ∨
        (call.PrintsToFlush pending ∧ written calls = [])

theorem length_of_staysBuffered
    {pending : List Byte} {call : Call} (short : pending.length < BUFSIZ)
    (stays : call.StaysBuffered pending) :
    (pending ++ call.bytes).length < BUFSIZ := by
  cases call with
  | fputc c => exact stays.2.2
  | fwrite objects => exact stays.2
  | print text => exact stays.2
  | fflush => rwa [Call.bytes, List.append_nil]

theorem not_staysBuffered_of_printsToFlush
    {pending : List Byte} {call : Call}
    (prints : call.PrintsToFlush pending) : ¬ call.StaysBuffered pending := by
  cases call with
  | print text =>
      rcases prints with ⟨before, last, rfl, -, flushes⟩
      exact not_quiet_of_flushes flushes
  | fputc c => exact prints.elim
  | fwrite objects => exact prints.elim
  | fflush => exact prints.elim

/-- The final flush succeeds when there is nothing to flush. -/
theorem performAll_fflush_iff
    {output : Output Serial} {pending : List Byte}
    (buffered : Buffered output pending) (short : pending.length < BUFSIZ) :
    ((performAll fileops output [.fflush]).1 = false ∧
        (performAll fileops output [.fflush]).2.device =
          output.device ++ pending) ↔
      pending = [] := by
  rw [performAll_cons, performAll, Bool.or_false]
  constructor
  · rintro ⟨succeeds, -⟩
    by_contra nonempty
    rcases flushbuffer_buffered buffered nonempty with ⟨next, fails, -⟩
    rw [perform, fflushUnlocked, fails] at succeeds
    have failed : decide (EOF = EOF) = false := succeeds
    exact absurd failed (by decide)
  · intro empty
    have stays : Call.fflush.StaysBuffered pending := empty
    rcases perform_stays buffered short stays with
      ⟨next, performs, -, device⟩
    rw [performs]
    refine ⟨rfl, ?_⟩
    rw [empty, List.append_nil]
    exact device

/-- On a stopped stream only silent calls and the final flush succeed. -/
theorem performAll_stopped_iff
    {output : Output Serial} {sent : Serial} (stopped : Stopped output sent)
    (calls : List Call) :
    ((performAll fileops output (calls ++ [.fflush])).1 = false ∧
        (performAll fileops output (calls ++ [.fflush])).2.device =
          sent ++ written calls) ↔
      written calls = [] := by
  constructor
  · rintro ⟨succeeds, device⟩
    rw [performAll_stopped stopped _ succeeds] at device
    exact List.self_eq_append_right.1 device
  · intro silent
    have succeeds :
        (performAll fileops output (calls ++ [.fflush])).1 = false := by
      apply performAll_silent stopped
      rw [written, List.flatMap_append, ← written, silent]
      rfl
    refine ⟨succeeds, ?_⟩
    rw [performAll_stopped stopped _ succeeds, silent, List.append_nil]

/-- By induction on the calls: up to the first flush each stays in the buffer.
-/
theorem performAll_iff_delivered
    {output : Output Serial} {pending : List Byte}
    (buffered : Buffered output pending) (short : pending.length < BUFSIZ)
    (calls : List Call) :
    ((performAll fileops output (calls ++ [.fflush])).1 = false ∧
        (performAll fileops output (calls ++ [.fflush])).2.device =
          output.device ++ (pending ++ written calls)) ↔
      Delivered pending calls := by
  induction calls generalizing output pending with
  | nil =>
      rw [List.nil_append, written, List.flatMap_nil, List.append_nil]
      exact performAll_fflush_iff buffered short
  | cons call calls induction =>
      rw [List.cons_append, performAll_cons, written_cons, Delivered,
        ← List.append_assoc pending]
      by_cases stays : call.StaysBuffered pending
      · rcases perform_stays buffered short stays with
          ⟨next, performs, holds, device⟩
        have ends : ¬ call.PrintsToFlush pending :=
          fun prints => not_staysBuffered_of_printsToFlush prints stays
        have continues := induction holds (length_of_staysBuffered short stays)
        rw [performs, Bool.false_or, ← device, continues]
        simp only [stays, ends, true_and, false_and, or_false]
      · by_cases prints : call.PrintsToFlush pending
        · rcases perform_printsToFlush buffered prints with
            ⟨next, performs, stopped⟩
          rw [performs, Bool.false_or, ← List.append_assoc,
            performAll_stopped_iff stopped]
          simp only [stays, prints, true_and, false_and, false_or]
        · simp only [stays, prints, false_and, or_self, iff_false]
          rintro ⟨succeeds, device⟩
          rcases Bool.or_eq_false_iff.1 succeeds with ⟨now, later⟩
          rcases perform_otherwise buffered short stays prints with
            fails | ⟨passed, stopped, fewer⟩
          · rw [now] at fails
            exact absurd fails Bool.false_ne_true
          · have lengths :=
              congrArg List.length
                ((performAll_stopped stopped _ later).symm.trans device)
            simp only [List.length_append] at lengths fewer
            omega

/-- The calls leave everything they write in the buffer. -/
def StayBuffered : List Byte → List Call → Prop
  | _, [] => True
  | pending, call :: calls =>
      call.StaysBuffered pending ∧
        StayBuffered (pending ++ call.bytes) calls

/--
Nothing is written at all, or the calls write into the buffer until the last
byte of the whole output, which formatted output writes, makes it flush.
-/
def FlushesOnce (pending : List Byte) (calls : List Call) : Prop :=
  (pending = [] ∧ written calls = []) ∨
    ∃ before text after,
      calls = before ++ .print text :: after ∧
        StayBuffered pending before ∧
        FlushesAtEnd (pending ++ written before) text ∧
        written after = []

theorem staysBuffered_of_silent
    {call : Call} (silent : call.bytes = []) : call.StaysBuffered [] := by
  cases call with
  | fputc c => exact absurd silent (List.cons_ne_nil _ _)
  | fwrite objects => exact absurd silent (Objects.bytes_ne_nil objects)
  | print text =>
      have empty : text = [] := silent
      rw [empty]
      exact ⟨List.not_mem_nil, by decide⟩
  | fflush => rfl

/-- What is delivered is flushed once, by the last call that writes. -/
theorem delivered_iff_flushesOnce
    (pending : List Byte) (calls : List Call) :
    Delivered pending calls ↔ FlushesOnce pending calls := by
  induction calls generalizing pending with
  | nil =>
      constructor
      · intro empty
        exact .inl ⟨empty, rfl⟩
      · rintro (⟨empty, -⟩ | ⟨before, text, after, same, -⟩)
        · exact empty
        · exact absurd same.symm (by simp)
  | cons call calls induction =>
      rw [Delivered, induction]
      constructor
      · rintro (⟨stays, ⟨empty, silent⟩ | later⟩ | ⟨prints, silent⟩)
        · rw [List.append_eq_nil_iff] at empty
          refine .inl ⟨empty.1, ?_⟩
          rw [written_cons, empty.2, silent]
          rfl
        · rcases later with
            ⟨before, text, after, rfl, stayLater, flushes, silent⟩
          refine
            .inr ⟨call :: before, text, after, rfl, ⟨stays, stayLater⟩, ?_,
              silent⟩
          rwa [written_cons, ← List.append_assoc]
        · cases call with
          | print text =>
              refine .inr ⟨[], text, calls, rfl, trivial, ?_, silent⟩
              rw [written, List.flatMap_nil, List.append_nil]
              exact prints
          | fputc c => exact prints.elim
          | fwrite objects => exact prints.elim
          | fflush => exact prints.elim
      · rintro (⟨rfl, silent⟩ | later)
        · rw [written_cons, List.append_eq_nil_iff] at silent
          refine .inl ⟨staysBuffered_of_silent silent.1, .inl ⟨?_, silent.2⟩⟩
          rw [silent.1]
          rfl
        · rcases later with
            ⟨before, text, after, same, stay, flushes, silent⟩
          cases before with
          | nil =>
              rw [List.nil_append, List.cons.injEq] at same
              rcases same with ⟨rfl, rfl⟩
              rw [written, List.flatMap_nil, List.append_nil] at flushes
              exact .inr ⟨flushes, silent⟩
          | cons first before =>
              rw [List.cons_append, List.cons.injEq] at same
              rcases same with ⟨rfl, rfl⟩
              rw [written_cons, ← List.append_assoc] at flushes
              exact
                .inl ⟨stay.1, .inr
                  ⟨before, text, after, rfl, stay.2, flushes, silent⟩⟩

theorem delivers_iff_delivered (calls : List Call) :
    Delivers calls ↔ Delivered [] calls :=
  performAll_iff_delivered buffered_stdout (by decide) calls

/--
Output is delivered without a reported error exactly when at most one flush
delivers anything, and that one comes at the very end of a formatted output.
-/
theorem console_output_iff (calls : List Call) :
    Delivers calls ↔ FlushesOnce [] calls := by
  rw [delivers_iff_delivered, delivered_iff_flushesOnce]

/-- The second of two lines is lost. -/
theorem second_line_is_lost :
    ¬ Delivers [.print [0x61, newline], .print [0x62, newline]] := by
  rw [delivers_iff_delivered]
  rintro (⟨quiet, -⟩ | ⟨-, silent⟩)
  · exact quiet.1 (by simp)
  · exact absurd silent (by decide)

end NopOS.Console.ConsoleRuns
