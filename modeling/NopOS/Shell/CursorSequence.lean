import NopOS.Console.Snprintf
import NopOS.Shell.Linenoise

/-!
# The cursor sequence

`refreshSingleLine` has `snprintf` print the sequence which moves the cursor
into 64 bytes, and appends the string.
-/

namespace NopOS.Shell.CursorSequence

open NopOS.Lib.IndexedBuffer
open NopOS.Shell.Linenoise
open NopOS.Console.Strtol (U64)
open NopOS.Console.Int2base hiding Fault
open NopOS.Console.PrintFormat
open NopOS.Console.FormatPieces hiding decimal
open NopOS.Console.Rendering
open NopOS.Console.Snprintf

/-! ## Decimal numbers -/

theorem map_toDigits (value : Nat) :
    ((Nat.toDigits 10 value).map fun digit => BitVec.ofNat 8 digit.toNat) =
      numeral false 10 value := by
  have digits :
      ∀ digit < 10,
        BitVec.ofNat 8 digit.digitChar.toNat = digitChar false digit := by
    decide
  induction value using Nat.strong_induction_on with
  | h value induction =>
      by_cases small : value < 10
      · rw [Nat.toDigits_of_lt_base small, numeral_of_lt false small,
          List.map_singleton, digits value small]
      · have large : 10 ≤ value := not_lt.mp small
        have last : value % 10 < 10 := Nat.mod_lt _ (by decide)
        rw [Nat.toDigits_of_base_le (by decide) large,
          numeral_of_le false (by decide) large, List.map_append,
          induction (value / 10) (by omega), List.map_singleton,
          digits _ last]

theorem length_numeral {value : Nat} (small : value < 10 ^ 10) :
    (numeral false 10 value).length ≤ 10 := by
  rw [← map_toDigits, List.length_map,
    Nat.length_toDigits_le_iff (by decide) (by decide)]
  exact small

/-- A number of type `int`, as `%d` passes it on. -/
def passed (value : U32) : U64 := value.signExtend 64

theorem signValue_passed (value : U32) :
    (signValue noFlags (passed value)).1.toNat = value.toInt.natAbs ∧
      (signValue noFlags (passed value)).2 =
        if value.toInt < 0 then some 0x2D else none := by
  have same : (passed value).toInt = value.toInt :=
    BitVec.toInt_signExtend_of_le (by decide)
  have most := BitVec.toInt_lt (x := value)
  have bound := BitVec.le_toInt value
  rw [signValue, same]
  change
    (if value.toInt < 0 then (-passed value, some (0x2D : Byte))
        else (passed value, none)).1.toNat = _ ∧
      (if value.toInt < 0 then (-passed value, some (0x2D : Byte))
        else (passed value, none)).2 = _
  rw [BitVec.toInt_eq_toNat_cond] at same
  have below := (passed value).isLt
  by_cases negative : value.toInt < 0
  · rw [if_pos negative, if_pos negative]
    refine ⟨?_, rfl⟩
    dsimp only
    rw [BitVec.toNat_neg]
    split at same
    · omega
    · omega
  · rw [if_neg negative, if_neg negative]
    refine ⟨?_, rfl⟩
    dsimp only
    split at same
    · omega
    · omega

/-- The format of `%d` alone. -/
def plainFormat : Format where
  flags := noFlags
  base := 10
  width := 0
  prec := -1

theorem number_plain (value : U32) :
    number plainFormat (signValue noFlags (passed value)).2
        (signValue noFlags (passed value)).1 =
      decimal value.toInt := by
  rcases signValue_passed value with ⟨magnitude, sign⟩
  have digits (value : U64) :
      body plainFormat value = numeral false 10 value.toNat := by
    have precision : ¬ (plainFormat.prec = 0 ∧ value = 0) :=
      fun none => absurd none.1 (by decide)
    have noZeros (length : Nat) :
        plainFormat.prec.toInt.toNat - length = 0 :=
      Nat.zero_sub length
    rw [body, if_neg precision, noZeros]
    rfl
  rw [number, digits, magnitude, sign, decimal, map_toDigits]
  by_cases negative : value.toInt < 0
  · rw [if_pos negative, if_pos negative]
    rfl
  · rw [if_neg negative, if_neg negative]
    rfl

/-- A 32-bit number has eleven characters at most. -/
theorem length_decimal (value : U32) : (decimal value.toInt).length ≤ 11 := by
  have most := BitVec.toInt_lt (x := value)
  have bound := BitVec.le_toInt value
  have small : value.toInt.natAbs < 10 ^ 10 := by omega
  have digits := length_numeral small
  rw [decimal, map_toDigits, List.length_append]
  split
  · rw [List.length_singleton]
    omega
  · rw [List.length_nil]
    omega

/-! ## The sequence -/

/-- `%d`. -/
def plainInt : Conversion where
  flags := []
  width := .unspecified
  precision := .unspecified
  length := .unspecified
  kind := .d

/-- `\r\x1b[%dC`. -/
def cursorFormat : List Piece :=
  [.character 0x0D, .character 0x1B, .character 0x5B, .conversion plainInt,
    .character 0x43]

/-- The format is one of those that are covered. -/
theorem valid_cursorFormat : ∀ piece ∈ cursorFormat, piece.Valid := by
  simp only [cursorFormat, List.forall_mem_cons, Piece.Valid]
  refine ⟨by decide, by decide, by decide, ?_, by decide, ?_⟩
  · constructor
    · intro number impossible
      cases impossible
    · intro number impossible
      cases impossible
  · intro piece impossible
    cases impossible

theorem layout_plain (value : U32) :
    layout (passed value) plainFormat = decimal value.toInt := by
  have text := number_plain value
  have noBlanks (length : Nat) :
      plainFormat.width.toInt.toNat - length = 0 :=
    Nat.zero_sub length
  rw [layout, blanks, noBlanks]
  exact text

theorem numberText_plain (value : U32) :
    numberText plainFormat (passed value) = decimal value.toInt := by
  have text := number_plain value
  have noBlanks (length : Nat) : plainFormat.width.toNat - length = 0 :=
    Nat.zero_sub length
  rw [numberText, field, noBlanks]
  exact text

theorem effect_plainInt (memory : Memory) (arg : VaList) :
    effect memory (plainInt.parsed arg []) plainInt.kind =
      some (.number (decimal ((arg 0).setWidth 32 : U32).toInt)) := by
  have short := length_decimal ((arg 0).setWidth 32)
  have fits : Fits (passed ((arg 0).setWidth 32)) plainFormat := by
    refine ⟨?_, fun octal => absurd octal.2.1 (by decide)⟩
    rw [layout_plain]
    exact short.trans (by decide)
  rw [← numberText_plain]
  exact if_pos fits

/-- What the format prints of an argument. -/
def cursorRendered (arg : VaList) : Rendered where
  text :=
    [0x0D, 0x1B, 0x5B] ++ decimal ((arg 0).setWidth 32 : U32).toInt ++ [0x43]
  arg := arg.next
  stores := []
  numberEnd :=
    ([0x0D, 0x1B, 0x5B] ++ decimal ((arg 0).setWidth 32 : U32).toInt).length

/-- What the format of the cursor's escape sequence prints. -/
theorem render_cursorFormat (memory : Memory) (arg : VaList) :
    render memory cursorFormat (start arg) = some (cursorRendered arg) := by
  have does (rendered : Rendered) :
      renderPiece memory rendered (.conversion plainInt) =
        some
          ({ rendered with arg := rendered.arg.next }.after
            (.number
              (decimal ((rendered.arg 0).setWidth 32 : U32).toInt))) := by
    rw [renderPiece, effect_plainInt]
    rfl
  rw [render]
  have character (rendered : Rendered) (c : Byte) :
      renderPiece memory rendered (.character c) =
        some (rendered.after (.text [c])) :=
    rfl
  simp only [cursorFormat, List.foldlM_cons, List.foldlM_nil, character, does,
    Option.bind_eq_bind, Option.bind_some]
  rfl

/-- What `snprintf` leaves in `seq` is what is appended. -/
theorem snprintf_cursorRight
    (memory : Memory) (s : Nat → Byte) (arg : VaList) :
    vsnprintf memory s 64 (spelled cursorFormat) arg =
      .ok
        (overlay (cursorRight ((arg 0).setWidth 32 : U32).toInt ++ [0]) s,
          BitVec.ofNat 32
            (cursorRight ((arg 0).setWidth 32 : U32).toInt).length,
          []) := by
  have short := length_decimal ((arg 0).setWidth 32)
  have length : (cursorRendered arg).text.length ≤ 15 := by
    simp only [cursorRendered, List.length_append, List.length_cons,
      List.length_nil]
    omega
  have whole :
      cursorRight ((arg 0).setWidth 32 : U32).toInt =
        (cursorRendered arg).text := by
    rw [cursorRight]
    exact List.take_of_length_le (length.trans (by decide))
  have room : (cursorRendered arg).text.length < (64 : U64).toNat :=
    length.trans_lt (by decide)
  have bound : (64 : U64).toNat < 2 ^ 32 := by decide
  rw [vsnprintf_renders valid_cursorFormat (render_cursorFormat memory arg)
      (length.trans_lt (by decide)) s bound,
    stored, if_pos room, whole]
  rfl

end NopOS.Shell.CursorSequence
