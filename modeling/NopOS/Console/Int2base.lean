import NopOS.Console.Strtol

/-!
# Printing numbers

`int2base` of `_PDCLIB_print.c` builds a number from its end on in a buffer on
the stack, whose size depends on the field width but not on the precision.
Here an access outside the buffer is a fault.
-/

namespace NopOS.Console.Int2base

open NopOS.Console.Strtol

/-- A 32-bit width or precision. -/
abbrev U32 := BitVec 32

/-- A write outside the buffer, or a loop that does not end. -/
inductive Fault where
  | outOfBuffer
  | outOfFuel
deriving DecidableEq

/-- The flags `E_minus` to `E_zero`, `E_lower` and `E_unsigned`. -/
structure Flags where
  minus : Bool
  plus : Bool
  alt : Bool
  space : Bool
  zero : Bool
  lower : Bool
  unsigned : Bool
deriving DecidableEq

/-- What `int2base` reads of the status. -/
structure Format where
  flags : Flags
  base : Nat
  width : U32
  prec : U32
deriving DecidableEq

/-! ## The buffer -/

/-- `outbuf`, by the distance from `outend`, and `written`. -/
structure OutBuffer where
  cells : Nat → Byte
  written : Nat

section Buffer

variable (bufLen : Nat)

/-- `outend[-place] = byte`. -/
def store (out : OutBuffer) (place : Nat) (byte : Byte) :
    Except Fault OutBuffer :=
  if 0 < place ∧ place ≤ bufLen then
    .ok { out with cells := Function.update out.cells place byte }
  else .error .outOfBuffer

/-- `outend[-place]`. -/
def load (out : OutBuffer) (place : Nat) : Except Fault Byte :=
  if 0 < place ∧ place ≤ bufLen then .ok (out.cells place)
  else .error .outOfBuffer

/-- `outend[-++written] = byte`. -/
def push (byte : Byte) (out : OutBuffer) : Except Fault OutBuffer :=
  store bufLen { out with written := out.written + 1 } (out.written + 1) byte

/-- The same byte pushed a number of times. -/
def pushTimes (byte : Byte) : Nat → OutBuffer → Except Fault OutBuffer
  | 0, out => .ok out
  | count + 1, out => push bufLen byte out >>= pushTimes byte count

/-- `while (written < bound) outend[-++written] = byte`. -/
def pushWhile (byte : Byte) (bound : Int) (out : OutBuffer) :
    Except Fault OutBuffer :=
  pushTimes bufLen byte (bound.toNat - out.written) out

end Buffer

/-- `while (written) PUT(outend[-written--])`. -/
def output (cells : Nat → Byte) : Nat → List Byte
  | 0 => []
  | written + 1 => cells (written + 1) :: output cells written

/-! ## The function -/

/-- `maxIntLen`: the digits of the longest number in base 8, rounded up. -/
def maxIntLen : Nat := 64 / 3 + 1

/-- `bufLen`: the longer of the width and the digits, with two characters for
prefixes. -/
def bufLen (width : U32) : Nat :=
  (if maxIntLen < width.toNat then width.toNat else maxIntLen) + 2

/-- `_PDCLIB_digits` or `_PDCLIB_Xdigits`. -/
def digitChar (lower : Bool) (digit : Nat) : Byte :=
  if digit < 10 then BitVec.ofNat 8 (0x30 + digit)
  else BitVec.ofNat 8 ((if lower then 0x61 else 0x41) + (digit - 10))

/-- The absolute value and the sign. -/
def signValue (flags : Flags) (value : U64) : U64 × Option Byte :=
  if flags.unsigned then (value, none)
  else if value.toInt < 0 then (-value, some 0x2D)
  else
    (value,
      if flags.plus then some 0x2B
      else if flags.space then some 0x20
      else none)

/-- The loop over the digits. -/
def digitLoop (bufLen : Nat) (lower : Bool) (base : U64) :
    Nat → U64 → OutBuffer → Except Fault OutBuffer
  | 0, _, _ => .error .outOfFuel
  | fuel + 1, remaining, out => do
      let out ← push bufLen (digitChar lower (remaining % base).toNat) out
      if remaining / base ≠ 0 then
        digitLoop bufLen lower base fuel (remaining / base) out
      else return out

/-- Under "Prefixes", with the number of zeros in `padding`. -/
def putPrefix
    (bufLen : Nat) (format : Format) (sign : Option Byte) (value : U64)
    (padding : Nat) (out : OutBuffer) : Except Fault OutBuffer :=
  match sign with
  | some sign =>
      let written := if padding = 0 then out.written + 1 else out.written
      store bufLen { out with written := written } written sign
  | none =>
      if format.flags.alt then
        if format.base = 8 then do
          if (← load bufLen out out.written) ≠ 0x30 then push bufLen 0x30 out
          else return out
        else if format.base = 16 then
          if value = 0 then return out
          else do
            let written := out.written + if padding < 2 then 2 - padding else 0
            let out ← store bufLen { out with written := written } written 0x30
            store bufLen out (written - 1)
              (if format.flags.lower then 0x78 else 0x58)
        else return out
      else return out

/-- The digits, of which a zero without precision has none. -/
def putDigits
    (bufLen : Nat) (format : Format) (value : U64) (out : OutBuffer) :
    Except Fault OutBuffer :=
  if format.prec ≠ 0 ∨ value ≠ 0 then
    digitLoop bufLen format.flags.lower (BitVec.ofNat 64 format.base) 64 value
      out
  else .ok out

/-- The loop that fills the width with zeros. -/
def padZeros (bufLen : Nat) (format : Format) (out : OutBuffer) :
    Except Fault OutBuffer :=
  if !format.flags.minus && format.flags.zero then
    pushWhile bufLen 0x30 format.width.toInt out
  else .ok out

/-- The loop that fills the width with blanks. -/
def padBlanks (bufLen : Nat) (format : Format) (out : OutBuffer) :
    Except Fault OutBuffer :=
  if !(format.flags.minus || format.flags.zero) then
    pushWhile bufLen 0x20 format.width.toInt out
  else .ok out

/-- What follows the digits. -/
def decorate
    (bufLen : Nat) (format : Format) (sign : Option Byte) (value : U64)
    (out : OutBuffer) : Except Fault OutBuffer := do
  let digits := out.written
  let out ← padZeros bufLen format out
  let out ← putPrefix bufLen format sign value (out.written - digits) out
  padBlanks bufLen format out

/-- What `int2base` writes; `garbage` is in the buffer before. -/
def int2base (garbage : Nat → Byte) (value : U64) (format : Format) :
    Except Fault (List Byte) := do
  let bufLen := bufLen format.width
  let (value, sign) := signValue format.flags value
  let out ← putDigits bufLen format value { cells := garbage, written := 0 }
  let out ← pushWhile bufLen 0x30 format.prec.toInt out
  let out ← decorate bufLen format sign value out
  return output out.cells out.written

/-! ## The text in the buffer -/

/-- What the buffer holds at the end, first character first. -/
def OutBuffer.text (out : OutBuffer) : List Byte := output out.cells out.written

@[simp]
theorem length_output (cells : Nat → Byte) (written : Nat) :
    (output cells written).length = written := by
  induction written with
  | zero => rfl
  | succ written induction => rw [output, List.length_cons, induction]

@[simp]
theorem length_text (out : OutBuffer) : out.text.length = out.written :=
  length_output out.cells out.written

theorem output_update
    {written place : Nat} (above : written < place)
    (cells : Nat → Byte) (byte : Byte) :
    output (Function.update cells place byte) written =
      output cells written := by
  induction written with
  | zero => rfl
  | succ written induction =>
      have different : written + 1 ≠ place := by omega
      rw [output, output, induction (by omega),
        Function.update_of_ne different]

theorem drop_output (cells : Nat → Byte) (written count : Nat) :
    (output cells written).drop count = output cells (written - count) := by
  induction count generalizing written with
  | zero => rfl
  | succ count induction =>
      cases written with
      | zero => rw [output, List.drop_nil, Nat.zero_sub, output]
      | succ written =>
          rw [output, List.drop_succ_cons, induction, Nat.succ_sub_succ]

/-- The text is built, unless it is too long for the buffer. -/
def Yields
    (bufLen : Nat) (result : Except Fault OutBuffer) (text : List Byte) :
    Prop :=
  if text.length ≤ bufLen then ∃ out, result = .ok out ∧ out.text = text
  else result = .error .outOfBuffer

section Yields

variable {bufLen : Nat} {out : OutBuffer}

theorem yields_ok (fits : out.written ≤ bufLen) :
    Yields bufLen (.ok out) out.text := by
  rw [Yields, length_text, if_pos fits]
  exact ⟨out, rfl, rfl⟩

/-- A text is built in two parts. -/
theorem yields_bind
    {result : Except Fault OutBuffer} {text longer : List Byte}
    {next : OutBuffer → Except Fault OutBuffer}
    (built : Yields bufLen result text)
    (grows : text.length ≤ longer.length)
    (goesOn :
      ∀ out : OutBuffer, out.text = text → out.written ≤ bufLen →
        Yields bufLen (next out) longer) :
    Yields bufLen (result >>= next) longer := by
  rw [Yields] at built
  by_cases fits : text.length ≤ bufLen
  · rw [if_pos fits] at built
    rcases built with ⟨out, rfl, shown⟩
    apply goesOn out shown
    rwa [← length_text, shown]
  · rw [if_neg fits] at built
    subst built
    rw [Yields, if_neg (by omega)]
    rfl

/-- A byte is stored in front of what is kept. -/
theorem yields_store
    (bufLen : Nat) (out : OutBuffer) (kept : Nat) (byte : Byte) :
    Yields bufLen
      (store bufLen { out with written := kept + 1 } (kept + 1) byte)
      (byte :: output out.cells kept) := by
  rw [Yields, store, List.length_cons, length_output]
  by_cases fits : kept + 1 ≤ bufLen
  · rw [if_pos fits, if_pos ⟨Nat.succ_pos _, fits⟩]
    refine ⟨_, rfl, ?_⟩
    rw [OutBuffer.text, output, output_update (Nat.lt_succ_self _)]
    dsimp only
    rw [Function.update_self]
  · rw [if_neg fits, if_neg fun inside => fits inside.2]

theorem yields_push (byte : Byte) :
    Yields bufLen (push bufLen byte out) (byte :: out.text) :=
  yields_store bufLen out out.written byte

theorem yields_pushTimes
    (fits : out.written ≤ bufLen) (byte : Byte) (count : Nat) :
    Yields bufLen (pushTimes bufLen byte count out)
      (List.replicate count byte ++ out.text) := by
  induction count generalizing out with
  | zero => exact yields_ok fits
  | succ count induction =>
      rw [pushTimes, List.replicate_succ', List.append_assoc,
        List.singleton_append]
      apply yields_bind (yields_push byte)
      · rw [List.length_append]
        omega
      · intro next shown room
        rw [← shown]
        exact induction room

/-- A loop of pushes fills up to its bound. -/
theorem yields_pushWhile
    (fits : out.written ≤ bufLen) (byte : Byte) (bound : Int) :
    Yields bufLen (pushWhile bufLen byte bound out)
      (List.replicate (bound.toNat - out.text.length) byte ++ out.text) := by
  rw [length_text]
  exact yields_pushTimes fits byte _

/-! ## Digits -/

/-- The digits of a number, of which zero has one. -/
def numeral (lower : Bool) (base value : Nat) : List Byte :=
  if value = 0 then [0x30]
  else (Nat.digits base value).reverse.map (digitChar lower)

theorem numeral_of_lt
    (lower : Bool) {base value : Nat} (small : value < base) :
    numeral lower base value = [digitChar lower value] := by
  rw [numeral]
  by_cases zero : value = 0
  · rw [if_pos zero, zero]
    rfl
  · rw [if_neg zero, Nat.digits_of_lt base value zero small]
    rfl

theorem numeral_of_le
    (lower : Bool) {base value : Nat} (two : 2 ≤ base) (large : base ≤ value) :
    numeral lower base value =
      numeral lower base (value / base) ++ [digitChar lower (value % base)] := by
  have positive : 0 < value := by omega
  have quotient : value / base ≠ 0 := (Nat.div_pos large (by omega)).ne'
  rw [numeral, if_neg positive.ne', numeral, if_neg quotient,
    Nat.digits_def' two positive, List.reverse_cons, List.map_append]
  rfl

/-- The loop ends, since each turn divides the number by the base. -/
theorem yields_digitLoop
    (lower : Bool) {base : U64} (two : 2 ≤ base.toNat)
    {fuel : Nat} {value : U64}
    (enough : value.toNat < base.toNat ^ (fuel + 1)) :
    Yields bufLen (digitLoop bufLen lower base (fuel + 1) value out)
      (numeral lower base.toNat value.toNat ++ out.text) := by
  induction fuel generalizing value out with
  | zero =>
      rw [zero_add, Nat.pow_one] at enough
      have last : ¬ value / base ≠ 0 := by
        rw [not_not, ← BitVec.toNat_inj, BitVec.toNat_udiv]
        exact Nat.div_eq_of_lt enough
      have digit : (value % base).toNat = value.toNat := by
        rw [BitVec.toNat_umod]
        exact Nat.mod_eq_of_lt enough
      rw [digitLoop, numeral_of_lt lower enough, digit]
      simp only [if_neg last]
      rw [bind_pure]
      exact yields_push _
  | succ fuel induction =>
      have quotient : (value / base).toNat = value.toNat / base.toNat :=
        BitVec.toNat_udiv
      have digit : (value % base).toNat = value.toNat % base.toNat :=
        BitVec.toNat_umod
      rw [digitLoop, digit]
      by_cases more : base.toNat ≤ value.toNat
      · have goesOn : value / base ≠ 0 := by
          intro zero
          have positive : 0 < value.toNat / base.toNat :=
            Nat.div_pos more (by omega)
          rw [← quotient, zero] at positive
          exact Nat.lt_irrefl 0 positive
        have below : (value / base).toNat < base.toNat ^ (fuel + 1) := by
          rw [quotient, Nat.div_lt_iff_lt_mul (by omega)]
          exact enough
        rw [numeral_of_le lower two more, List.append_assoc, ← quotient]
        apply yields_bind (yields_push _)
        · rw [List.length_append, List.length_append, List.length_singleton,
            List.length_cons]
          omega
        · intro next shown _
          rw [if_pos goesOn, List.singleton_append, ← shown]
          exact induction below
      · have last : ¬ value / base ≠ 0 := by
          rw [not_not, ← BitVec.toNat_inj, quotient]
          exact Nat.div_eq_of_lt (not_le.mp more)
        rw [numeral_of_lt lower (not_le.mp more),
          Nat.mod_eq_of_lt (not_le.mp more)]
        simp only [if_neg last]
        rw [bind_pure]
        exact yields_push _

/-! ## The prefix -/

/-- A run of the digit zero. -/
def zeros (count : Nat) : List Byte := List.replicate count 0x30

/-- What stands in front of the digits; an octal number starts with a zero,
which may be one of its digits. -/
def prefixOf
    (format : Format) (sign : Option Byte) (value : U64) (body : List Byte) :
    List Byte :=
  match sign with
  | some sign => [sign]
  | none =>
      if format.flags.alt then
        if format.base = 8 then
          if body.head? = some 0x30 then [] else [0x30]
        else if format.base = 16 then
          if value = 0 then []
          else [0x30, if format.flags.lower then 0x78 else 0x58]
        else []
      else []

theorem yields_storeTwo
    (bufLen : Nat) (out : OutBuffer) (kept : Nat) (first second : Byte) :
    Yields bufLen
      (store bufLen { out with written := kept + 2 } (kept + 2) first >>=
        fun out => store bufLen out (kept + 1) second)
      (first :: second :: output out.cells kept) := by
  rw [Yields, store, List.length_cons, List.length_cons, length_output]
  by_cases fits : kept + 2 ≤ bufLen
  · rw [if_pos fits, if_pos ⟨Nat.succ_pos _, fits⟩]
    refine ⟨_, if_pos ⟨Nat.succ_pos _, by omega⟩, ?_⟩
    have apart : kept + 2 ≠ kept + 1 := by omega
    rw [OutBuffer.text, output, output]
    dsimp only
    rw [Function.update_self, Function.update_of_ne apart,
      Function.update_self, output_update (by omega), output_update (by omega)]
  · rw [if_neg fits, if_neg fun inside => fits inside.2]
    rfl

theorem length_zeros (count : Nat) : (zeros count).length = count :=
  List.length_replicate

/-- What is kept behind a part of the padding. -/
theorem output_kept
    {padding count : Nat} {body : List Byte}
    (shown : out.text = zeros padding ++ body) (most : count ≤ padding) :
    output out.cells (out.written - count) =
      zeros (padding - count) ++ body := by
  have inside : count ≤ (zeros padding).length := by
    rwa [length_zeros]
  have dropped := congrArg (List.drop count) shown
  rw [List.drop_append_of_le_length inside, OutBuffer.text, drop_output,
    zeros, List.drop_replicate] at dropped
  exact dropped

theorem load_written
    {first : Byte} {later : List Byte} (shown : out.text = first :: later)
    (fits : out.written ≤ bufLen) :
    load bufLen out out.written = .ok first := by
  rw [OutBuffer.text] at shown
  rw [load]
  cases written : out.written with
  | zero =>
      rw [written] at shown
      cases shown
  | succ kept =>
      rw [written] at shown fits
      rw [if_pos ⟨Nat.succ_pos _, fits⟩]
      exact congrArg Except.ok (List.cons.inj shown).1

/-- The prefix replaces zeros of the padding. -/
theorem yields_putPrefix
    (format : Format) (sign : Option Byte) (value : U64)
    {padding : Nat} {body : List Byte}
    (shown : out.text = zeros padding ++ body)
    (fits : out.written ≤ bufLen)
    (nonempty :
      sign = none → format.flags.alt → format.base = 8 → out.text ≠ []) :
    Yields bufLen (putPrefix bufLen format sign value padding out)
      (prefixOf format sign value body ++
        zeros (padding - (prefixOf format sign value body).length) ++ body) := by
  have written : out.written = padding + body.length := by
    rw [← length_text, shown, List.length_append, length_zeros]
  have unchanged : Yields bufLen (.ok out) (zeros padding ++ body) := by
    rw [← shown]
    exact yields_ok fits
  cases sign with
  | some sign =>
      cases padding with
      | zero =>
          have built : Yields bufLen (push bufLen sign out) _ := yields_push sign
          rw [shown] at built
          exact built
      | succ padding =>
          have place : out.written = out.written - 1 + 1 := by omega
          have built := yields_store bufLen out (out.written - 1) sign
          rw [← place, output_kept shown (by omega)] at built
          exact built
  | none =>
      rw [putPrefix, prefixOf]
      dsimp only
      by_cases alt : format.flags.alt = true
      · rw [if_pos alt, if_pos alt]
        by_cases octal : format.base = 8
        · rw [if_pos octal, if_pos octal]
          cases padding with
          | zero =>
              cases body with
              | nil => exact absurd shown (nonempty rfl alt octal)
              | cons first later =>
                  rw [load_written shown fits]
                  by_cases zero : first = 0x30
                  · subst zero
                    exact unchanged
                  · have other : ¬ (first :: later).head? = some 0x30 := by
                      rw [List.head?_cons, Option.some.injEq]
                      exact zero
                    have built : Yields bufLen (push bufLen 0x30 out) _ :=
                      yields_push 0x30
                    rw [shown] at built
                    rw [if_neg other]
                    change
                      Yields bufLen
                        (if first ≠ 0x30 then push bufLen 0x30 out
                        else .ok out) _
                    rw [if_pos zero]
                    exact built
          | succ padding =>
              have first : out.text = 0x30 :: (zeros padding ++ body) := shown
              rw [load_written first fits]
              split
              · exact unchanged
              · exact unchanged
        · rw [if_neg octal, if_neg octal]
          by_cases hex : format.base = 16
          · rw [if_pos hex, if_pos hex]
            by_cases zero : value = 0
            · rw [if_pos zero, if_pos zero]
              exact unchanged
            · rw [if_neg zero, if_neg zero]
              have place :
                  (out.written + if padding < 2 then 2 - padding else 0) =
                    out.written - min padding 2 + 2 := by
                split <;> omega
              have next :
                  (out.written + if padding < 2 then 2 - padding else 0) - 1 =
                    out.written - min padding 2 + 1 := by
                omega
              have built :=
                yields_storeTwo bufLen out (out.written - min padding 2) 0x30
                  (if format.flags.lower then 0x78 else 0x58)
              have padded : padding - min padding 2 = padding - 2 := by omega
              rw [output_kept shown (min_le_left _ _), ← place, ← next,
                padded] at built
              exact built
          · rw [if_neg hex, if_neg hex]
            exact unchanged
      · rw [if_neg alt, if_neg alt]
        exact unchanged

end Yields

/-! ## The layout of a number -/

/-- The digits, with zeros up to the precision. -/
def body (format : Format) (value : U64) : List Byte :=
  let digits :=
    if format.prec = 0 ∧ value = 0 then []
    else numeral format.flags.lower format.base value.toNat
  zeros (format.prec.toInt.toNat - digits.length) ++ digits

/-- How many zeros are missing for the field width. -/
def padding (format : Format) (value : U64) : Nat :=
  if !format.flags.minus && format.flags.zero then
    format.width.toInt.toNat - (body format value).length
  else 0

/-- The prefix, the zeros for the field width and the digits. -/
def number (format : Format) (sign : Option Byte) (value : U64) : List Byte :=
  let front := prefixOf format sign value (body format value)
  front ++ zeros (padding format value - front.length) ++ body format value

/-- How many blanks are missing in front of a text. -/
def blanks (format : Format) (text : List Byte) : Nat :=
  if !(format.flags.minus || format.flags.zero) then
    format.width.toInt.toNat - text.length
  else 0

/-- The text of a number: blanks, the sign or prefix, zeros, the digits. -/
def layout (value : U64) (format : Format) : List Byte :=
  let text :=
    number format (signValue format.flags value).2
      (signValue format.flags value).1
  List.replicate (blanks format text) 0x20 ++ text

/-- An octal zero without a digit, of which the first digit is looked at. -/
def BareOctal (value : U64) (format : Format) : Prop :=
  (signValue format.flags value).2 = none ∧ format.flags.alt ∧
    format.base = 8 ∧
    zeros (padding format (signValue format.flags value).1) ++
      body format (signValue format.flags value).1 = []

/-- The buffer is large enough, and is not read before its end. -/
def Fits (value : U64) (format : Format) : Prop :=
  (layout value format).length ≤ bufLen format.width ∧ ¬ BareOctal value format

instance (value : U64) (format : Format) : Decidable (BareOctal value format) :=
  inferInstanceAs (Decidable (_ ∧ _ ∧ _ ∧ _))

instance (value : U64) (format : Format) : Decidable (Fits value format) :=
  inferInstanceAs (Decidable (_ ∧ _))

section Layout

variable {format : Format}

/-- The digits of the value; zero with precision zero has none. -/
theorem yields_putDigits
    {bufLen : Nat} {out : OutBuffer} (empty : out.written = 0)
    (value : U64) (two : 2 ≤ format.base) (most : format.base ≤ 16) :
    Yields bufLen (putDigits bufLen format value out)
      (if format.prec = 0 ∧ value = 0 then []
      else numeral format.flags.lower format.base value.toNat) := by
  have base : (BitVec.ofNat 64 format.base).toNat = format.base := by
    rw [BitVec.toNat_ofNat]
    exact Nat.mod_eq_of_lt (by omega)
  have enough :
      value.toNat < (BitVec.ofNat 64 format.base).toNat ^ (63 + 1) := by
    rw [base]
    exact value.isLt.trans_le (Nat.pow_le_pow_left two 64)
  have nothing : out.text = [] := by
    rw [OutBuffer.text, empty]
    rfl
  rw [putDigits]
  by_cases none : format.prec = 0 ∧ value = 0
  · rw [if_pos none, if_neg (by simp [none]), ← nothing]
    exact yields_ok (empty.le.trans (Nat.zero_le _))
  · have some : format.prec ≠ 0 ∨ value ≠ 0 := by
      by_contra neither
      rw [not_or, not_not, not_not] at neither
      exact none neither
    have loop :
        Yields bufLen
          (digitLoop bufLen format.flags.lower (BitVec.ofNat 64 format.base) 64
            value out)
          _ :=
      yields_digitLoop format.flags.lower (base.symm ▸ two) enough
    rw [base, nothing, List.append_nil] at loop
    rwa [if_neg none, if_pos some]

theorem yields_body
    {bufLen : Nat} {out : OutBuffer} (empty : out.written = 0)
    (value : U64) (two : 2 ≤ format.base) (most : format.base ≤ 16) :
    Yields bufLen
      (putDigits bufLen format value out >>=
        pushWhile bufLen 0x30 format.prec.toInt)
      (body format value) := by
  apply yields_bind (yields_putDigits empty value two most)
  · rw [body, List.length_append]
    exact Nat.le_add_left _ _
  · intro out shown fits
    rw [body, ← shown]
    exact yields_pushWhile fits 0x30 _

theorem yields_padZeros
    {bufLen : Nat} {out : OutBuffer} {value : U64}
    (shown : out.text = body format value) (fits : out.written ≤ bufLen) :
    Yields bufLen (padZeros bufLen format out)
      (zeros (padding format value) ++ body format value) := by
  rw [padZeros, padding, ← shown]
  split
  · exact yields_pushWhile fits 0x30 _
  · exact yields_ok fits

theorem yields_padBlanks
    {bufLen : Nat} {out : OutBuffer} (fits : out.written ≤ bufLen) :
    Yields bufLen (padBlanks bufLen format out)
      (List.replicate (blanks format out.text) 0x20 ++ out.text) := by
  rw [padBlanks, blanks]
  split
  · exact yields_pushWhile fits 0x20 _
  · exact yields_ok fits

/-- Zeros, the prefix and blanks are put in front. -/
theorem yields_decorate
    {bufLen : Nat} {out : OutBuffer} {sign : Option Byte} {value : U64}
    (shown : out.text = body format value) (fits : out.written ≤ bufLen)
    (nonempty :
      sign = none → format.flags.alt → format.base = 8 →
        zeros (padding format value) ++ body format value ≠ []) :
    Yields bufLen (decorate bufLen format sign value out)
      (List.replicate (blanks format (number format sign value)) 0x20 ++
        number format sign value) := by
  apply yields_bind (yields_padZeros shown fits)
  · rw [List.length_append, List.length_append, number, List.length_append,
      List.length_append, length_zeros, length_zeros]
    omega
  intro padded shownPadded fitsPadded
  have count : padded.written - out.written = padding format value := by
    rw [← length_text, ← length_text, shownPadded, shown, List.length_append,
      length_zeros]
    omega
  rw [count]
  apply yields_bind
    (yields_putPrefix format sign value shownPadded fitsPadded
      (fun none alt octal => shownPadded ▸ nonempty none alt octal))
  · exact (List.sublist_append_right _ _).length_le
  intro complete shownComplete fitsComplete
  have built : Yields bufLen (padBlanks bufLen format complete) _ :=
    yields_padBlanks fitsComplete
  rw [shownComplete] at built
  exact built

/-- An octal zero without digits is looked for where nothing was written. -/
theorem decorate_bareOctal
    {bufLen : Nat} {out : OutBuffer} {value : U64}
    (shown : out.text = body format value) (fits : out.written ≤ bufLen)
    (alt : format.flags.alt = true) (octal : format.base = 8)
    (empty : zeros (padding format value) ++ body format value = []) :
    decorate bufLen format none value out = .error .outOfBuffer := by
  have padded := yields_padZeros shown fits
  have room : ([] : List Byte).length ≤ bufLen := Nat.zero_le bufLen
  rw [empty, Yields, if_pos room] at padded
  rcases padded with ⟨padded, pads, nothing⟩
  have written : padded.written = 0 := by
    rw [← length_text, nothing]
    rfl
  have outside : ¬ (0 < padded.written ∧ padded.written ≤ bufLen) := by
    rw [written]
    exact fun inside => Nat.lt_irrefl 0 inside.1
  rw [decorate, pads]
  change
    (putPrefix bufLen format none value (padded.written - out.written) padded >>=
      _) = _
  rw [putPrefix]
  dsimp only
  rw [if_pos alt, if_pos octal, load, if_neg outside]
  rfl

theorem output_yields
    {bufLen : Nat} {result : Except Fault OutBuffer} {text : List Byte}
    (built : Yields bufLen result text) :
    (result >>= fun out => .ok (output out.cells out.written)) =
      if text.length ≤ bufLen then .ok text else .error .outOfBuffer := by
  rw [Yields] at built
  by_cases fits : text.length ≤ bufLen
  · rw [if_pos fits] at built
    rcases built with ⟨out, rfl, shown⟩
    rw [if_pos fits]
    exact congrArg Except.ok shown
  · rw [if_neg fits] at built
    rw [if_neg fits, built]
    rfl

/-- The function is digits, then precision, then decoration. -/
theorem int2base_parts
    (garbage : Nat → Byte) (value : U64) (format : Format) :
    int2base garbage value format =
      (putDigits (bufLen format.width) format (signValue format.flags value).1
            { cells := garbage, written := 0 } >>=
          pushWhile (bufLen format.width) 0x30 format.prec.toInt) >>=
        (fun out =>
          decorate (bufLen format.width) format
              (signValue format.flags value).2 (signValue format.flags value).1
              out >>=
            fun out => .ok (output out.cells out.written)) := by
  rw [int2base, bind_assoc]
  rfl

/-- `int2base` writes the layout if it fits into the buffer, and otherwise
leaves the buffer. -/
theorem int2base_eq
    (garbage : Nat → Byte) (value : U64)
    (two : 2 ≤ format.base) (most : format.base ≤ 16) :
    int2base garbage value format =
      if Fits value format then .ok (layout value format)
      else .error .outOfBuffer := by
  have digits :
      Yields (bufLen format.width)
        (putDigits (bufLen format.width) format
            (signValue format.flags value).1
            { cells := garbage, written := 0 } >>=
          pushWhile (bufLen format.width) 0x30 format.prec.toInt)
        (body format (signValue format.flags value).1) :=
    yields_body rfl _ two most
  rw [int2base_parts]
  by_cases bare : BareOctal value format
  · have unfit : ¬ Fits value format := fun fits => fits.2 bare
    rcases bare with ⟨noSign, alt, octal, empty⟩
    have nothing := (List.append_eq_nil_iff.mp empty).2
    have room : ([] : List Byte).length ≤ bufLen format.width := Nat.zero_le _
    rw [nothing, Yields, if_pos room] at digits
    rcases digits with ⟨out, written, shown⟩
    have fits : out.written ≤ bufLen format.width := by
      rw [← length_text, shown]
      exact room
    rw [if_neg unfit, written, noSign]
    exact
      congrArg (· >>= fun out => .ok (output out.cells out.written))
        (decorate_bareOctal (shown.trans nothing.symm) fits alt octal empty)
  · have fitsIff :
        (layout value format).length ≤ bufLen format.width ↔
          Fits value format :=
      ⟨fun fits => ⟨fits, bare⟩, And.left⟩
    have built :
        Yields (bufLen format.width)
          (putDigits (bufLen format.width) format
                (signValue format.flags value).1
                { cells := garbage, written := 0 } >>=
              pushWhile (bufLen format.width) 0x30 format.prec.toInt >>=
            decorate (bufLen format.width) format
              (signValue format.flags value).2
              (signValue format.flags value).1)
          (layout value format) := by
      apply yields_bind digits
      · rw [layout, number]
        exact
          ((List.sublist_append_right _ _).trans
            (List.sublist_append_right _ _)).length_le
      · intro out shown fits
        apply yields_decorate shown fits
        intro noSign alt octal empty
        exact bare ⟨noSign, alt, octal, empty⟩
    rw [← bind_assoc, output_yields built]
    exact if_congr fitsIff rfl rfl

end Layout

/-! ## The size of the buffer -/

section Size

variable {format : Format}

/-- A number of 64 bits has at most 22 digits from base 8 on. -/
theorem length_numeral_le
    (lower : Bool) {base : Nat} (eight : 8 ≤ base) {value : Nat}
    (word : value < 2 ^ 64) :
    (numeral lower base value).length ≤ maxIntLen := by
  have octal : 2 ^ 64 ≤ 8 ^ maxIntLen := by decide
  rw [numeral]
  split
  · exact (by decide : 1 ≤ maxIntLen)
  · rw [List.length_map, List.length_reverse]
    apply (Nat.digits_length_le_iff (by omega) value).mpr
    exact
      (word.trans_le octal).trans_le (Nat.pow_le_pow_left eight maxIntLen)

theorem length_body
    (eight : 8 ≤ format.base) (value : U64) :
    format.prec.toInt.toNat ≤ (body format value).length ∧
      (body format value).length ≤ max maxIntLen format.prec.toInt.toNat := by
  have digits :
      (if format.prec = 0 ∧ value = 0 then []
        else numeral format.flags.lower format.base value.toNat).length ≤
          maxIntLen := by
    split
    · exact Nat.zero_le _
    · exact length_numeral_le _ eight value.isLt
  rw [body, List.length_append, length_zeros]
  omega

theorem length_prefixOf_le
    (format : Format) (sign : Option Byte) (value : U64) (body : List Byte) :
    (prefixOf format sign value body).length ≤ 2 := by
  rw [prefixOf.eq_def]
  split
  · exact Nat.le_succ 1
  · split
    · split
      · split
        · exact Nat.zero_le 2
        · exact Nat.le_succ 1
      · split
        · split
          · exact Nat.zero_le 2
          · exact le_rfl
        · exact Nat.zero_le 2
    · exact Nat.zero_le 2

/-- The width and the precision bound the text. -/
theorem length_layout
    (eight : 8 ≤ format.base) (value : U64) :
    format.prec.toInt.toNat ≤ (layout value format).length ∧
      (layout value format).length ≤
        max format.width.toInt.toNat
          (max maxIntLen format.prec.toInt.toNat + 2) := by
  have digits := length_body eight (signValue format.flags value).1
  have front :=
    length_prefixOf_le format (signValue format.flags value).2
      (signValue format.flags value).1
      (body format (signValue format.flags value).1)
  have zerosLe :
      padding format (signValue format.flags value).1 ≤
        format.width.toInt.toNat -
          (body format (signValue format.flags value).1).length := by
    rw [padding]
    split
    · exact le_rfl
    · exact Nat.zero_le _
  have blanksLe (text : List Byte) :
      blanks format text ≤ format.width.toInt.toNat - text.length := by
    rw [blanks]
    split
    · exact le_rfl
    · exact Nat.zero_le _
  have inFront := blanksLe (number format (signValue format.flags value).2
    (signValue format.flags value).1)
  rw [layout, List.length_append, List.length_replicate]
  rw [number] at inFront ⊢
  rw [List.length_append, List.length_append, length_zeros] at inFront ⊢
  omega

/-- No number leaves the buffer if the precision is at most the 22 digits
which are always reserved or the width, save an octal zero without a digit;
every number leaves it if the precision is larger by more than two. -/
theorem int2base_in_buffer
    (garbage : Nat → Byte) (value : U64)
    (eight : 8 ≤ format.base) (most : format.base ≤ 16)
    (narrow : format.width.toNat < 2 ^ 31) :
    (format.prec.toInt ≤ max maxIntLen format.width.toNat →
      int2base garbage value format =
        if BareOctal value format then .error .outOfBuffer
        else .ok (layout value format)) ∧
      (max maxIntLen format.width.toNat + 2 < format.prec.toInt →
        int2base garbage value format = .error .outOfBuffer) := by
  have two : 2 ≤ format.base := le_trans (by decide) eight
  have length := length_layout eight value
  have width : format.width.toInt.toNat = format.width.toNat := by
    rw [BitVec.toInt_eq_toNat_of_lt (by omega), Int.toNat_natCast]
  have size : bufLen format.width = max maxIntLen format.width.toNat + 2 := by
    rw [bufLen]
    split
    · omega
    · omega
  have fitsIff :
      Fits value format ↔
        (layout value format).length ≤
            max maxIntLen format.width.toNat + 2 ∧
          ¬ BareOctal value format := by
    rw [Fits, size]
  rw [width] at length
  rw [int2base_eq garbage value two most]
  constructor
  · intro short
    have fits :
        (layout value format).length ≤
          max maxIntLen format.width.toNat + 2 := by
      omega
    by_cases bare : BareOctal value format
    · rw [if_pos bare, if_neg fun both => both.2 bare]
    · rw [if_neg bare, if_pos (fitsIff.mpr ⟨fits, bare⟩)]
  · intro long
    rw [if_neg]
    intro fits
    have within := (fitsIff.mp fits).1
    omega

/-- `%#.*o`. -/
def octalFormat (prec : U32) : Format where
  flags :=
    { minus := false
      plus := false
      alt := true
      space := false
      zero := false
      lower := false
      unsigned := true }
  base := 8
  width := 0
  prec

/-- The largest number with two precisions. -/
theorem int2base_in_buffer_octal :
    int2base (fun _ => 0xAA) (BitVec.allOnes 64) (octalFormat 22) =
        .ok (0x30 :: 0x31 :: List.replicate 21 0x37) ∧
      int2base (fun _ => 0xAA) (BitVec.allOnes 64) (octalFormat 25) =
        .error .outOfBuffer := by
  have eight (prec : U32) : 8 ≤ (octalFormat prec).base := le_rfl
  have most (prec : U32) : (octalFormat prec).base ≤ 16 :=
    (by decide : 8 ≤ 16)
  have narrow (prec : U32) : (octalFormat prec).width.toNat < 2 ^ 31 :=
    (by decide : (0 : U32).toNat < 2 ^ 31)
  have bare :
      ¬ BareOctal (BitVec.allOnes 64) (octalFormat 22) := by
    decide
  constructor
  · have printed :=
      (int2base_in_buffer (fun _ => 0xAA) (BitVec.allOnes 64) (eight 22)
        (most 22) (narrow 22)).1 (by decide)
    rw [if_neg bare] at printed
    rw [printed]
    rfl
  · exact
      (int2base_in_buffer (fun _ => 0xAA) (BitVec.allOnes 64) (eight 25)
        (most 25) (narrow 25)).2 (by decide)

end Size

end NopOS.Console.Int2base
