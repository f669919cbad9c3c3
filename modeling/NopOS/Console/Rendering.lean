import NopOS.Console.FormatPieces

/-!
# What a conversion prints

The text which a conversion stands for: a number, a character or a string in
its field.  `_PDCLIB_print` prints this text.
-/

namespace NopOS.Console.Rendering

open NopOS.Console.Strtol hiding number Conversion
open NopOS.Console.Int2base hiding Fault
open NopOS.Console.ReadBack
open NopOS.Console.PrintFormat
open NopOS.Console.FormatPieces

/-! ## Fields -/

/-- A text in a field of a width, at its left end for `minus`. -/
def field (minus : Bool) (width : Nat) (text : List Byte) : List Byte :=
  if minus then text ++ spaces (width - text.length)
  else spaces (width - text.length) ++ text

/-- A string up to the precision, of which a negative one is none. -/
def cut (prec : U32) (str : Text) : Text :=
  if prec.toInt < 0 then str else str.take prec.toInt.toNat

theorem copyLoop_eq (prec : U32) (str : Text) (current : Nat) :
    copyLoop prec str current =
      if prec.toInt < 0 then str else str.take (prec.toInt.toNat - current) := by
  induction str generalizing current with
  | nil => rw [copyLoop, List.take_nil, ite_self]
  | cons c str induction =>
      rw [copyLoop, induction]
      by_cases negative : prec.toInt < 0
      · rw [if_pos (Or.inl negative), if_pos negative, if_pos negative]
      · rw [if_neg negative, if_neg negative]
        by_cases more : (current : Int) < prec.toInt
        · have one :
              prec.toInt.toNat - current =
                prec.toInt.toNat - (current + 1) + 1 := by
            omega
          rw [if_pos (Or.inr more), one, List.take_succ_cons]
        · have nothing : prec.toInt.toNat - current = 0 := by omega
          rw [if_neg, nothing, List.take_zero]
          rintro (below | below)
          · exact negative below
          · exact more below

theorem prefix_cut (prec : U32) (str : Text) : cut prec str <+: str := by
  rw [cut]
  split
  · exact List.prefix_rfl
  · exact List.take_prefix _ _

/-- The padding is the difference, or a negative number. -/
theorem padding_eq
    {width len : Nat} (narrow : width < 2 ^ 31) (short : len < 2 ^ 31) :
    ((BitVec.ofNat 64 width - BitVec.ofNat 64 len).setWidth 32 :
        U32).toInt.toNat =
      width - len := by
  rw [BitVec.toInt_eq_toNat_cond, BitVec.toNat_setWidth, BitVec.toNat_sub,
    BitVec.toNat_ofNat, BitVec.toNat_ofNat]
  split
  · omega
  · omega

/-- A string is cut to its precision and set in its field. -/
theorem printstr_eq
    {str : Text} (short : str.length < 2 ^ 31) (flags : Flags)
    {width : U32} (narrow : width.toNat < 2 ^ 31) (prec : U32) :
    printstr str flags width prec =
      field flags.minus width.toNat (cut prec str) := by
  have copied : copyLoop prec str 0 = cut prec str := copyLoop_eq prec str 0
  rw [printstr]
  by_cases left : width = 0 ∨ flags.minus = true
  · rw [if_pos left]
    dsimp only
    rw [copied, field]
    rcases left with none | minus
    · subst none
      split
      · rfl
      · have nothing : (0 : U32).toNat - (cut prec str).length = 0 :=
          Nat.zero_sub _
        rw [nothing]
        exact List.append_nil _
    · rw [if_pos minus]
      rfl
  · have right : ¬ flags.minus = true := fun minus => left (Or.inr minus)
    have len :
        (if 0 ≤ prec.toInt then min str.length prec.toInt.toNat
          else str.length) = (cut prec str).length := by
      rw [cut]
      by_cases negative : prec.toInt < 0
      · rw [if_neg (not_le.mpr negative), if_pos negative]
      · rw [if_pos (not_lt.mp negative), if_neg negative, List.length_take,
          min_comm]
    have taken : str.take (cut prec str).length = cut prec str :=
      (List.prefix_iff_eq_take.mp (prefix_cut prec str)).symm
    have within : (cut prec str).length < 2 ^ 31 :=
      (prefix_cut prec str).length_le.trans_lt short
    rw [if_neg left]
    dsimp only
    rw [len, taken, padding_eq narrow within, field, if_neg right]
    rfl

/-- A number in its field, with the blanks which `_PDCLIB_print` adds. -/
theorem layout_field
    (value : U64) {format : Format} (narrow : format.width.toNat < 2 ^ 31) :
    layout value format ++
        (if format.flags.minus then
          spaces (format.width.toNat - (layout value format).length)
        else []) =
      field format.flags.minus format.width.toNat
        (number format (signValue format.flags value).2
          (signValue format.flags value).1) := by
  have width : format.width.toInt.toNat = format.width.toNat := by
    rw [BitVec.toInt_eq_toNat_of_lt (by omega), Int.toNat_natCast]
  rw [layout, blanks, width]
  generalize printed :
    number format (signValue format.flags value).2
      (signValue format.flags value).1 = text
  rw [field]
  cases minus : format.flags.minus with
  | true => rfl
  | false =>
      cases zero : format.flags.zero with
      | false => exact List.append_nil _
      | true =>
          have full : format.width.toNat ≤ text.length := by
            rw [← printed, number, padding, minus, zero, width,
              List.length_append, List.length_append, length_zeros]
            simp only [Bool.not_false, Bool.and_self, if_true]
            omega
          have nothing : format.width.toNat - text.length = 0 := by omega
          rw [nothing]
          exact List.append_nil _

/-! ## The effect of a conversion -/

/-- What a conversion does: print a text or a number, or store the count of
the characters so far. -/
inductive Effect where
  | text (text : List Byte)
  | number (text : List Byte)
  | count (address : U64)
deriving DecidableEq

/-- The base of a conversion. -/
def base : Kind → Nat
  | .o => 8
  | .x => 16
  | .X => 16
  | .p => 16
  | _ => 10

/-- The flags that a conversion adds. -/
def kindFlags (flags : Flags) : Kind → Flags
  | .o => { flags with unsigned := true }
  | .u => { flags with unsigned := true }
  | .x => { flags with lower := true, unsigned := true }
  | .X => { flags with unsigned := true }
  | .p => { flags with lower := true, unsigned := true, alt := true }
  | _ => flags

/-- The status bits that a conversion adds: `%p` takes a pointer. -/
def kindTypes (types : List LengthType) : Kind → List LengthType
  | .p => .intptr :: types
  | _ => types

/-- How a number is printed. -/
def numberFormat (parsed : Parsed) (kind : Kind) : Format where
  flags := kindFlags parsed.flags kind
  base := base kind
  width := parsed.width
  prec := parsed.prec

/-- The argument of a conversion for numbers. -/
def argument (parsed : Parsed) (kind : Kind) : Option U64 :=
  let types := kindTypes parsed.types kind
  if (kindFlags parsed.flags kind).unsigned then
    unsignedValue types (parsed.arg 0)
  else signedValue types (parsed.arg 0)

/-- A number in its field. -/
def numberText (format : Format) (value : U64) : List Byte :=
  field format.flags.minus format.width.toNat
    (number format (signValue format.flags value).2
      (signValue format.flags value).1)

/-- What a numeric conversion prints, where its argument has a value and the
text fits the buffer. -/
def numberEffect (parsed : Parsed) (kind : Kind) : Option Effect := do
  let value ← argument parsed kind
  if Fits value (numberFormat parsed kind) then
    some (.number (numberText (numberFormat parsed kind) value))
  else none

/-- The effect, if the width and the string have a length below `2 ^ 31` and a
number fits the buffer. -/
def effect (memory : Memory) (parsed : Parsed) (kind : Kind) : Option Effect :=
  let slot := parsed.arg 0
  if parsed.width.toNat < 2 ^ 31 then
    match kind with
    | .c =>
        some
          (.text
            (field parsed.flags.minus parsed.width.toNat [slot.setWidth 8]))
    | .s =>
        if (memory.strings slot).length < 2 ^ 31 then
          some
            (.text
              (field parsed.flags.minus parsed.width.toNat
                (cut parsed.prec (memory.strings slot))))
        else none
    | .n => some (.count slot)
    | _ => numberEffect parsed kind
  else none

/-- What an effect does to the status of the call. -/
def Effect.apply (status : Status) : Effect → Except Fault Status
  | .text printed => .ok (putAll status printed)
  | .number printed => endNumber (putAll status printed)
  | .count address =>
      .ok { status with stores := status.stores ++ [(address, status.i)] }

theorem putAll_append (status : Status) (first second : List Byte) :
    putAll status (first ++ second) = putAll (putAll status first) second :=
  List.foldl_append

theorem base_bounds (kind : Kind) : 2 ≤ base kind ∧ base kind ≤ 16 := by
  cases kind <;> decide

/-- A number that fits the buffer is printed in its field. -/
theorem printInteger_eq
    (memory : Memory) (status : Status) {value : U64} {format : Format}
    (two : 2 ≤ format.base) (most : format.base ≤ 16)
    (narrow : format.width.toNat < 2 ^ 31) (fits : Fits value format) :
    printInteger memory status value format =
      endNumber (putAll status (numberText format value)) := by
  rw [printInteger, int2base_eq _ _ two most, if_pos fits, numberText,
    ← layout_field value narrow, putAll_append]
  change
    endNumber
        (if format.flags.minus then
          putAll (putAll status (layout value format)) _
        else putAll status (layout value format)) =
      _
  cases format.flags.minus with
  | true => rfl
  | false => rfl

section Convert

variable {memory : Memory} {parsed : Parsed} {rest : Text}

/-- Three conversions are no numbers; the others are integers. -/
theorem specifier_cases (kind : Kind) :
    kind = .c ∨ kind = .s ∨ kind = .n ∨
      kind.byte ≠ 0x63 ∧ kind.byte ≠ 0x73 ∧ kind.byte ≠ 0x6E ∧
        ∀ flags types,
          integerKind kind.byte flags types =
            some (base kind, kindFlags flags kind, kindTypes types kind) := by
  cases kind with
  | c => exact Or.inl rfl
  | s => exact Or.inr (Or.inl rfl)
  | n => exact Or.inr (Or.inr (Or.inl rfl))
  | _ =>
      refine Or.inr (Or.inr (Or.inr ⟨by decide, by decide, by decide, ?_⟩))
      intro flags types
      rfl

theorem noFloat (kind : Kind) :
    kind.byte ∉ [(0x66 : Byte), 0x46, 0x65, 0x45, 0x67, 0x47, 0x61, 0x41] := by
  cases kind <;> decide

/-- `_PDCLIB_print` has the effect of the conversion. -/
theorem convert_eq
    {kind : Kind} (specifier : parsed.spec = kind.byte :: rest)
    {does : Effect} (here : effect memory parsed kind = some does)
    (status : Status) :
    convert memory parsed status =
      (does.apply { status with arg := parsed.arg.next } >>= fun status =>
        .ok (some rest, status)) := by
  have letter : char parsed.spec = kind.byte := by
    rw [specifier]
    rfl
  have behind : parsed.spec.tail = rest := by
    rw [specifier]
    rfl
  rw [effect.eq_def] at here
  by_cases narrow : parsed.width.toNat < 2 ^ 31
  · simp only [if_pos narrow] at here
    rw [convert, letter, behind, if_neg (noFloat kind)]
    rcases specifier_cases kind with rfl | rfl | rfl | ⟨noC, noS, noN, reads⟩
    · cases here
      rfl
    · by_cases short : (memory.strings (parsed.arg 0)).length < 2 ^ 31
      · simp only [if_pos short] at here
        cases here
        rw [← printstr_eq short _ narrow]
        rfl
      · simp only [if_neg short] at here
        cases here
    · cases here
      rfl
    · have number : numberEffect parsed kind = some does := by
        cases kind with
        | c => exact absurd rfl noC
        | s => exact absurd rfl noS
        | n => exact absurd rfl noN
        | _ => exact here
      rw [if_neg noC, if_neg noS, if_neg noN, reads]
      rw [numberEffect] at number
      cases passed : argument parsed kind with
      | none =>
          rw [passed] at number
          cases number
      | some value =>
          rw [passed] at number
          change
            (if Fits value (numberFormat parsed kind) then some _ else none) =
              some does at number
          by_cases fits : Fits value (numberFormat parsed kind)
          · rw [if_pos fits] at number
            cases number
            have bounds := base_bounds kind
            have read :
                (if (kindFlags parsed.flags kind).unsigned then
                    unsignedValue (kindTypes parsed.types kind) (parsed.arg 0)
                  else
                    signedValue (kindTypes parsed.types kind) (parsed.arg 0)) =
                  some value :=
              passed
            dsimp only
            rw [read]
            dsimp only
            change
              printInteger memory _ value (numberFormat parsed kind) >>= _ = _
            rw [printInteger_eq memory _ bounds.1 bounds.2 narrow fits]
            rfl
          · rw [if_neg fits] at number
            cases number
  · simp only [if_neg narrow] at here
    cases here

end Convert

/-! ## A conversion in a format -/

/-- What follows a conversion is not looked at. -/
theorem parsed_rest (c : Conversion) (arg : VaList) (rest : Text) :
    c.parsed arg rest =
      { c.parsed arg [] with spec := c.kind.byte :: rest } := by
  rw [Conversion.parsed, Conversion.parsed]

theorem spec_parsed (c : Conversion) (arg : VaList) (rest : Text) :
    (c.parsed arg rest).spec = c.kind.byte :: rest := by
  rw [parsed_rest]

theorem effect_rest
    (memory : Memory) (c : Conversion) (arg : VaList) (rest : Text) :
    effect memory (c.parsed arg rest) c.kind =
      effect memory (c.parsed arg []) c.kind := by
  rw [parsed_rest]
  rfl

theorem char_spelled
    {c : Conversion} (valid : c.Valid) (rest : Text) :
    char (c.spelled rest) ≠ 0x25 := by
  have letter := char_length c.length c.kind rest
  have point := char_precision c.precision letter
  have noPercent : ∀ c ∈ 0x2E :: letters, c ≠ 0x25 := by decide
  rw [Conversion.spelled]
  cases c.flags with
  | nil =>
      cases width : c.width with
      | unspecified => exact noPercent _ point
      | number number =>
          have every :
              ∀ digit < 10, digitChar true digit ≠ 0x25 := by
            decide
          rcases char_decimal (valid.width number width).1 _ with
            ⟨digit, -, small, first⟩
          exact first ▸ every digit small
      | star => exact (by decide : (0x2A : Byte) ≠ 0x25)
  | cons flag flags =>
      cases flag with
      | minus => exact (by decide : (0x2D : Byte) ≠ 0x25)
      | plus => exact (by decide : (0x2B : Byte) ≠ 0x25)
      | alt => exact (by decide : (0x23 : Byte) ≠ 0x25)
      | space => exact (by decide : (0x20 : Byte) ≠ 0x25)
      | zero => exact (by decide : (0x30 : Byte) ≠ 0x25)

/-- A conversion that has an effect is carried out. -/
theorem print_spelled
    {memory : Memory} {c : Conversion} (valid : c.Valid) {status : Status}
    {does : Effect}
    (here : effect memory (c.parsed status.arg []) c.kind = some does)
    (rest : Text) :
    print memory (0x25 :: c.spelled rest) status =
      (does.apply { status with arg := (c.parsed status.arg []).arg.next } >>=
        fun status => .ok (some rest, status)) := by
  rw [← effect_rest memory c status.arg rest] at here
  have next : (c.parsed status.arg rest).arg = (c.parsed status.arg []).arg := by
    rw [parsed_rest]
  rw [print, List.tail_cons, if_neg (char_spelled valid rest),
    parse_spelled status.arg valid, ← next]
  exact convert_eq (spec_parsed c status.arg rest) here status

end NopOS.Console.Rendering
