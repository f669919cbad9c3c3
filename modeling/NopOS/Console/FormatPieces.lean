import NopOS.Console.PrintFormat
import NopOS.Console.ReadBack

/-!
# The conversions of a format

A conversion as its flags, width, precision, length and kind; how a format
spells it, and that `_PDCLIB_print` reads the same parts again.
-/

namespace NopOS.Console.FormatPieces

open NopOS.Lib.Numeral
open NopOS.Console.Strtol
open NopOS.Console.Int2base hiding Fault number
open NopOS.Console.ReadBack
open NopOS.Console.PrintFormat

/-! ## The parts of a conversion -/

/-- The five flag characters. -/
inductive FlagChar where
  | minus
  | plus
  | alt
  | space
  | zero
deriving DecidableEq

/-- How a flag is written. -/
def FlagChar.byte : FlagChar → Byte
  | .minus => 0x2D
  | .plus => 0x2B
  | .alt => 0x23
  | .space => 0x20
  | .zero => 0x30

/-- The flag a character sets. -/
def FlagChar.set (flags : Flags) : FlagChar → Flags
  | .minus => { flags with minus := true }
  | .plus => { flags with plus := true }
  | .alt => { flags with alt := true }
  | .space => { flags with space := true }
  | .zero => { flags with zero := true }

/-- A width: absent, digits or a star. -/
inductive Width where
  | unspecified
  | number (width : Nat)
  | star
deriving DecidableEq

/-- A precision may be a point alone. -/
inductive Precision where
  | unspecified
  | point
  | number (prec : Nat)
  | star
deriving DecidableEq

/-- The length modifiers. -/
inductive Length where
  | unspecified
  | hh
  | h
  | l
  | ll
  | j
  | z
  | t
  | L
deriving DecidableEq

/-- The conversion characters. -/
inductive Kind where
  | d
  | i
  | o
  | u
  | x
  | X
  | p
  | c
  | s
  | n
deriving DecidableEq

/-- The parts of a conversion specification, in the order they are written. -/
structure Conversion where
  flags : List FlagChar
  width : Width
  precision : Precision
  length : Length
  kind : Kind
deriving DecidableEq

/-! ## Spelling -/

/-- A decimal number. -/
def decimal (number : Nat) : Text := numeral true 10 number

/-- How a width is written. -/
def Width.spelled : Width → Text
  | .unspecified => []
  | .number width => decimal width
  | .star => [0x2A]

/-- How a precision is written. -/
def Precision.spelled : Precision → Text
  | .unspecified => []
  | .point => [0x2E]
  | .number prec => 0x2E :: decimal prec
  | .star => [0x2E, 0x2A]

/-- How a length modifier is written. -/
def Length.spelled : Length → Text
  | .unspecified => []
  | .hh => [0x68, 0x68]
  | .h => [0x68]
  | .l => [0x6C]
  | .ll => [0x6C, 0x6C]
  | .j => [0x6A]
  | .z => [0x7A]
  | .t => [0x74]
  | .L => [0x4C]

/-- How a conversion is written. -/
def Kind.byte : Kind → Byte
  | .d => 0x64
  | .i => 0x69
  | .o => 0x6F
  | .u => 0x75
  | .x => 0x78
  | .X => 0x58
  | .p => 0x70
  | .c => 0x63
  | .s => 0x73
  | .n => 0x6E

/-- The conversion behind its `%`, and what follows it. -/
def Conversion.spelled (c : Conversion) (rest : Text) : Text :=
  c.flags.map FlagChar.byte ++
    (c.width.spelled ++
      (c.precision.spelled ++ (c.length.spelled ++ c.kind.byte :: rest)))

/-- A width does not start with a zero, which is a flag, and the numbers are
in the range of a `long`. -/
structure Conversion.Valid (c : Conversion) : Prop where
  width : ∀ number, c.width = .number number → 0 < number ∧ number < 2 ^ 63
  precision : ∀ number, c.precision = .number number → number < 2 ^ 63

/-! ## Meaning of the parts -/

/-- The status bits that a length modifier sets. -/
def Length.types : Length → List LengthType
  | .unspecified => []
  | .hh => [.char]
  | .h => [.short]
  | .l => [.long]
  | .ll => [.llong]
  | .j => [.intmax]
  | .z => [.size]
  | .t => [.ptrdiff]
  | .L => []

/-- A negative width argument is a flag and a width. -/
def Width.read (flags : Flags) (arg : VaList) :
    Width → Flags × U32 × VaList
  | .unspecified => (flags, 0, arg)
  | .number width => (flags, BitVec.ofNat 32 width, arg)
  | .star =>
      let width : U32 := (arg 0).setWidth 32
      if width.toInt < 0 then
        ({ flags with minus := true }, -width, arg.next)
      else (flags, width, arg.next)

/-- What `parsePrec` makes of a precision; a star takes an argument. -/
def Precision.read (flags : Flags) (arg : VaList) :
    Precision → Flags × U32 × VaList
  | .unspecified => (flags, -1, arg)
  | .point => ({ flags with zero := false }, 0, arg)
  | .number prec => ({ flags with zero := false }, BitVec.ofNat 32 prec, arg)
  | .star => ({ flags with zero := false }, (arg 0).setWidth 32, arg.next)

/-- What is read of a conversion. -/
def Conversion.parsed (c : Conversion) (arg : VaList) (rest : Text) : Parsed :=
  let (flags, width, arg) := c.width.read (c.flags.foldl FlagChar.set noFlags) arg
  let (flags, prec, arg) := c.precision.read flags arg
  { spec := c.kind.byte :: rest
    flags
    types := c.length.types
    width
    prec
    arg }

/-! ## What follows a part -/

/-- The letters of a length or a kind. -/
def letters : List Byte :=
  [0x68, 0x6C, 0x6A, 0x7A, 0x74, 0x4C, 0x64, 0x69, 0x6F, 0x75, 0x78, 0x58,
    0x70, 0x63, 0x73, 0x6E]

/-- The bytes that the loop over the flags takes. -/
def flagBytes : List Byte := [0x2D, 0x2B, 0x23, 0x20, 0x30]

/-- A character which ends a number without being looked at further. -/
def EndsNumber (c : Byte) : Prop :=
  InTable c ∧ IsDigit 10 c = false ∧ ¬ IsSpace c ∧ c ≠ 0x2D ∧ c ≠ 0x2B

instance (c : Byte) : Decidable (EndsNumber c) :=
  inferInstanceAs (Decidable (_ ∧ _ ∧ _ ∧ _ ∧ _))

theorem Kind.byte_mem (kind : Kind) : kind.byte ∈ letters := by
  cases kind <;> decide

theorem char_length
    (length : Length) (kind : Kind) (rest : Text) :
    char (length.spelled ++ kind.byte :: rest) ∈ letters := by
  cases length with
  | unspecified => exact kind.byte_mem
  | hh => exact (by decide : (0x68 : Byte) ∈ letters)
  | h => exact (by decide : (0x68 : Byte) ∈ letters)
  | l => exact (by decide : (0x6C : Byte) ∈ letters)
  | ll => exact (by decide : (0x6C : Byte) ∈ letters)
  | j => exact (by decide : (0x6A : Byte) ∈ letters)
  | z => exact (by decide : (0x7A : Byte) ∈ letters)
  | t => exact (by decide : (0x74 : Byte) ∈ letters)
  | L => exact (by decide : (0x4C : Byte) ∈ letters)

theorem char_precision
    (precision : Precision) {s : Text} (letter : char s ∈ letters) :
    char (precision.spelled ++ s) ∈ 0x2E :: letters := by
  cases precision with
  | unspecified => exact List.mem_cons_of_mem _ letter
  | point => exact List.mem_cons_self
  | number prec => exact List.mem_cons_self
  | star => exact List.mem_cons_self

theorem endsNumber_of_mem {c : Byte} (letter : c ∈ 0x2E :: letters) :
    EndsNumber c := by
  have every : ∀ c ∈ 0x2E :: letters, EndsNumber c := by decide
  exact every c letter

/-! ## Reading the parts -/

theorem parseFlags_other
    {spec : Text} (other : char spec ∉ flagBytes) (flags : Flags) :
    parseFlags spec flags = (spec, flags) := by
  cases spec with
  | nil => rfl
  | cons c spec =>
      have apart : ∀ flag ∈ flagBytes, ¬ c = flag := by
        rintro flag member rfl
        exact other member
      rw [parseFlags, if_neg (apart 0x2D (by decide)),
        if_neg (apart 0x2B (by decide)), if_neg (apart 0x23 (by decide)),
        if_neg (apart 0x20 (by decide)), if_neg (apart 0x30 (by decide))]

/-- Flags are read back as they are written. -/
theorem parseFlags_spelled
    {spec : Text} (other : char spec ∉ flagBytes)
    (chars : List FlagChar) (flags : Flags) :
    parseFlags (chars.map FlagChar.byte ++ spec) flags =
      (spec, chars.foldl FlagChar.set flags) := by
  induction chars generalizing flags with
  | nil => exact parseFlags_other other flags
  | cons flag chars induction =>
      cases flag with
      | minus => exact induction _
      | plus => exact induction _
      | alt => exact induction _
      | space => exact induction _
      | zero => exact induction _

/-! ## Numbers in a format -/

theorem subject_ten (s : Text) : subject 10 s = (signed s).2 := by
  rw [subject]
  exact if_neg fun marked => absurd marked.1 (by decide)

theorem signed_other
    {s : Text} (noSpace : ¬ IsSpace (char s)) (noMinus : char s ≠ 0x2D)
    (noPlus : char s ≠ 0x2B) :
    (s.dropWhile fun c => IsSpace c) = s ∧ signed s = (false, s) := by
  have kept : (s.dropWhile fun c => IsSpace c) = s := by
    cases s with
    | nil => rfl
    | cons c s =>
        rw [List.dropWhile_cons_of_neg]
        rwa [decide_eq_true_iff]
  refine ⟨kept, ?_⟩
  rw [signed, kept]
  exact (if_neg noMinus).trans (if_neg noPlus)

theorem readInt_none
    {rest : Text} (ends : EndsNumber (char rest)) :
    readInt rest = .ok (rest, 0) := by
  rcases ends with ⟨inTable, noDigit, noSpace, noMinus, noPlus⟩
  rcases signed_other noSpace noMinus noPlus with ⟨kept, signs⟩
  have behind : subject 10 rest = rest := by
    rw [subject_ten, signs]
  have stays : rest.dropWhile (IsDigit 10) = rest := by
    cases rest with
    | nil => rfl
    | cons c rest =>
        rw [List.dropWhile_cons_of_neg]
        exact Bool.eq_false_iff.mp noDigit
  have readable : Readable 10 rest := by
    constructor
    · rw [kept]
      exact inTable
    · intro impossible
      exact absurd impossible (by decide)
    · rw [behind, stays]
      exact inTable
  rcases strtol_reads readable (by decide) (by decide) with
    ⟨result, reads, meaning⟩
  rw [behind, noDigit] at meaning
  subst meaning
  have atTen : strtol rest 10 = some ⟨0, some rest, false⟩ := reads
  rw [readInt, atTen]
  rfl

/-- A number is read back up to the first other character. -/
theorem readInt_decimal
    {number : Nat} (small : number < 2 ^ 63) {rest : Text}
    (ends : EndsNumber (char rest)) :
    readInt (decimal number ++ rest) = .ok (rest, BitVec.ofNat 32 number) := by
  have prints : Prints 10 (decimal number) number :=
    prints_numeral true (by decide) (by decide) number
  have nonempty : decimal number ≠ [] := numeral_ne_nil true 10 number
  have signs : signed (decimal number ++ rest) = (false, decimal number ++ rest) :=
    signed_digits prints.isDigit nonempty
  have behind :
      subject 10 (decimal number ++ rest) = decimal number ++ rest := by
    rw [subject_ten, signs]
  have first : IsDigit 10 (char (decimal number ++ rest)) = true := by
    cases run : decimal number with
    | nil => exact absurd run nonempty
    | cons c later =>
        exact prints.isDigit c (run ▸ List.mem_cons_self)
  rcases notSpace_of_isDigit first with ⟨noSpace, noMinus, noPlus⟩
  have stops : IsDigit 10 (char rest) = false := ends.2.1
  have readable : Readable 10 (decimal number ++ rest) := by
    constructor
    · rw [(signed_other noSpace noMinus noPlus).1]
      exact inTable_of_isDigit first
    · intro impossible
      exact absurd impossible (by decide)
    · rw [behind, dropWhile_run prints.isDigit stops]
      exact ends.1
  rcases strtol_reads readable (by decide) (by decide) with
    ⟨result, reads, meaning⟩
  have spelled :
      Strtol.number 10 (decimal number ++ rest) =
        (BitVec.ofNat 64 number).toInt := by
    have word : (BitVec.ofNat 64 number).toNat = number := by
      rw [BitVec.toNat_ofNat]
      exact Nat.mod_eq_of_lt (by omega)
    rw [BitVec.toInt_eq_toNat_of_lt (by omega), word, Strtol.number, signs,
      behind, numberFrom_run prints.isDigit stops, prints.value_eq]
    rfl
  rw [behind, if_pos first, spelled, afterNumber, behind,
    dropWhile_run prints.isDigit stops] at meaning
  rcases meaning with ⟨clamped, endptr⟩
  have same := (value_of_clamped clamped).1
  have atTen : strtol (decimal number ++ rest) 10 = some result := reads
  rw [readInt, atTen]
  dsimp only
  rw [endptr, same, BitVec.setWidth_ofNat_of_le (by decide)]
  rfl

/-- A number above zero does not start with a zero. -/
theorem char_decimal
    {number : Nat} (positive : 0 < number) (rest : Text) :
    ∃ digit,
      0 < digit ∧ digit < 10 ∧
        char (decimal number ++ rest) = digitChar true digit := by
  have nonempty : Nat.digits 10 number ≠ [] :=
    Nat.digits_ne_nil_iff_ne_zero.mpr positive.ne'
  refine
    ⟨(Nat.digits 10 number).getLast nonempty,
      Nat.pos_of_ne_zero (Nat.getLast_digit_ne_zero 10 positive.ne'),
      Nat.digits_lt_base (by decide) (List.getLast_mem nonempty), ?_⟩
  have reversed :
      (Nat.digits 10 number).reverse =
        (Nat.digits 10 number).getLast nonempty ::
          (Nat.digits 10 number).dropLast.reverse := by
    rw [← List.reverse_concat, List.dropLast_concat_getLast]
  rw [decimal, numeral, if_neg positive.ne', reversed]
  rfl

theorem decimal_not_flag
    {number : Nat} (positive : 0 < number) (rest : Text) :
    char (decimal number ++ rest) ∉ flagBytes := by
  have every :
      ∀ digit < 10, 0 < digit → digitChar true digit ∉ flagBytes := by
    decide
  rcases char_decimal positive rest with ⟨digit, nonzero, small, first⟩
  rw [first]
  exact every digit small nonzero

theorem decimal_not_star (number : Nat) (rest : Text) :
    char (decimal number ++ rest) ≠ 0x2A := by
  have prints : Prints 10 (decimal number) number :=
    prints_numeral true (by decide) (by decide) number
  cases run : decimal number with
  | nil => exact absurd run (numeral_ne_nil true 10 number)
  | cons c later =>
      have isDigit := prints.isDigit c (run ▸ List.mem_cons_self)
      rintro rfl
      exact absurd isDigit (by decide)

/-! ## Reading a conversion -/

section Parse

variable {s : Text} (flags : Flags) (arg : VaList)

/-- A width is read back, or its argument is taken. -/
theorem parseWidth_spelled
    {width : Width} (inRange : ∀ number, width = .number number → number < 2 ^ 63)
    (letter : char s ∈ 0x2E :: letters) :
    parseWidth (width.spelled ++ s) flags arg =
      .ok (s, width.read flags arg) := by
  have noStar : ∀ c ∈ 0x2E :: letters, c ≠ 0x2A := by decide
  rw [parseWidth]
  cases width with
  | unspecified =>
      rw [Width.spelled, List.nil_append, if_neg (noStar _ letter),
        readInt_none (endsNumber_of_mem letter)]
      rfl
  | number width =>
      rw [Width.spelled, if_neg (decimal_not_star width s),
        readInt_decimal (inRange width rfl) (endsNumber_of_mem letter)]
      rfl
  | star =>
      have here : char (Width.star.spelled ++ s) = 0x2A := rfl
      rw [if_pos here, Width.read]
      by_cases negative : ((arg 0).setWidth 32 : U32).toInt < 0
      · simp only [if_pos negative]
        rfl
      · simp only [if_neg negative]
        rfl

/-- A precision is read back, or its argument is taken. -/
theorem parsePrec_spelled
    {precision : Precision}
    (inRange : ∀ number, precision = .number number → number < 2 ^ 63)
    (letter : char s ∈ letters) :
    parsePrec (precision.spelled ++ s) flags arg =
      .ok (s, precision.read flags arg) := by
  have other : ∀ c ∈ letters, c ≠ 0x2E ∧ c ≠ 0x2A := by decide
  have ends := endsNumber_of_mem (List.mem_cons_of_mem 0x2E letter)
  rw [parsePrec]
  cases precision with
  | unspecified =>
      rw [Precision.spelled, List.nil_append, if_neg (other _ letter).1]
      rfl
  | point =>
      have here : char (Precision.point.spelled ++ s) = 0x2E := rfl
      rw [if_pos here]
      change
        (if char s = 0x2A then _ else readInt s >>= _) = _
      rw [if_neg (other _ letter).2, readInt_none ends]
      rfl
  | number prec =>
      have here : char ((Precision.number prec).spelled ++ s) = 0x2E := rfl
      rw [if_pos here]
      change
        (if char (decimal prec ++ s) = 0x2A then _
        else readInt (decimal prec ++ s) >>= _) = _
      rw [if_neg (decimal_not_star prec s), readInt_decimal (inRange prec rfl) ends]
      rfl
  | star =>
      have here : char (Precision.star.spelled ++ s) = 0x2E := rfl
      rw [if_pos here]
      rfl

/-- A length is read back. -/
theorem parseLength_spelled (length : Length) (kind : Kind) (rest : Text) :
    parseLength (length.spelled ++ kind.byte :: rest) =
      (kind.byte :: rest, length.types) := by
  cases length <;> cases kind <;> rfl

/-- `_PDCLIB_print` reads the parts of which a conversion was spelled. -/
theorem parse_spelled
    {c : Conversion} (valid : c.Valid) (rest : Text) :
    parse (c.spelled rest) arg = .ok (c.parsed arg rest) := by
  have letter := char_length c.length c.kind rest
  have point := char_precision c.precision letter
  have noFlag :
      char
          (c.width.spelled ++
            (c.precision.spelled ++
              (c.length.spelled ++ c.kind.byte :: rest))) ∉
        flagBytes := by
    have apart : ∀ c ∈ 0x2E :: letters, c ∉ flagBytes := by decide
    cases width : c.width with
    | unspecified => exact apart _ point
    | number number =>
        exact decimal_not_flag (valid.width number width).1 _
    | star => exact (by decide : (0x2A : Byte) ∉ flagBytes)
  rw [parse, Conversion.spelled, parseFlags_spelled noFlag]
  dsimp only
  rw [parseWidth_spelled _ _ (fun number same => (valid.width number same).2)
    point, Conversion.parsed]
  rcases c.width.read (c.flags.foldl FlagChar.set noFlags) arg with
    ⟨flags, width, arg⟩
  change (parsePrec _ flags arg >>= _) = _
  rw [parsePrec_spelled _ _ valid.precision letter]
  dsimp only
  rcases c.precision.read flags arg with ⟨flags, prec, arg⟩
  dsimp only [bind, Except.bind]
  rw [parseLength_spelled]
  rfl

end Parse

end NopOS.Console.FormatPieces
