import NopOS.Console.Int2base

/-!
# Numbers are read back

What `int2base` prints of a number is read as that number by `strtol`, or by
`strtoul` if it was printed without a sign, whatever the flags, the field width
and the precision.
-/

namespace NopOS.Console.ReadBack

open NopOS.Lib.Numeral
open NopOS.Console.Strtol
open NopOS.Console.Int2base hiding number

/-! ## Digits which were printed -/

theorem digitValue_digitChar
    (lower : Bool) {base digit : Nat} (small : digit < base)
    (most : base ≤ 16) :
    digitValue base (digitChar lower digit) = some digit := by
  have every :
      ∀ base < 17, ∀ digit < base, ∀ lower,
        digitValue base (digitChar lower digit) = some digit := by
    decide
  exact every base (Nat.lt_succ_of_le most) digit small lower

section Digits

variable {base : Nat}

theorem digitValue_zero (positive : 0 < base) (most : base ≤ 16) :
    digitValue base 0x30 = some 0 :=
  digitValue_digitChar true positive most

theorem filterMap_digitChar
    (lower : Bool) (most : base ≤ 16) {digits : List Nat}
    (small : ∀ digit ∈ digits, digit < base) :
    (digits.map (digitChar lower)).filterMap (digitValue base) = digits := by
  rw [List.filterMap_map]
  induction digits with
  | nil => rfl
  | cons digit digits induction =>
      have here :
          (digitValue base ∘ digitChar lower) digit = some digit :=
        digitValue_digitChar lower (small digit List.mem_cons_self) most
      rw [List.filterMap_cons_some here,
        induction fun digit inside =>
          small digit (List.mem_cons_of_mem _ inside)]

theorem filterMap_zeros (positive : 0 < base) (most : base ≤ 16) (count : Nat) :
    (zeros count).filterMap (digitValue base) = List.replicate count 0 := by
  rw [zeros, List.filterMap_replicate_of_some
    (digitValue_zero positive most)]

/-- The characters are the digits of a number. -/
structure Prints (base : Nat) (run : Text) (printed : Nat) : Prop where
  isDigit : ∀ c ∈ run, IsDigit base c = true
  value_eq : value base 0 (run.filterMap (digitValue base)) = printed

theorem prints_nil : Prints base [] 0 :=
  ⟨fun _ inside => absurd inside List.not_mem_nil, rfl⟩

theorem Prints.zeros_append
    {run : Text} {printed : Nat} (prints : Prints base run printed)
    (positive : 0 < base) (most : base ≤ 16) (count : Nat) :
    Prints base (zeros count ++ run) printed := by
  constructor
  · intro c inside
    rcases List.mem_append.mp inside with zero | digit
    · rw [zeros] at zero
      rw [List.eq_of_mem_replicate zero, IsDigit,
        digitValue_zero positive most]
      rfl
    · exact prints.isDigit c digit
  · rw [List.filterMap_append, filterMap_zeros positive most, value_append,
      value_zeros, prints.value_eq]

/-- A numeral is read back, digit by digit. -/
theorem prints_numeral
    (lower : Bool) (two : 2 ≤ base) (most : base ≤ 16) (number : Nat) :
    Prints base (numeral lower base number) number := by
  rw [numeral]
  by_cases zero : number = 0
  · rw [if_pos zero, zero]
    exact prints_nil.zeros_append (by omega) most 1
  · have small : ∀ digit ∈ (Nat.digits base number).reverse, digit < base := by
      intro digit inside
      exact Nat.digits_lt_base two (List.mem_reverse.mp inside)
    rw [if_neg zero]
    constructor
    · intro c inside
      rcases List.mem_map.mp inside with ⟨digit, member, rfl⟩
      rw [IsDigit, digitValue_digitChar lower (small digit member) most]
      rfl
    · rw [filterMap_digitChar lower most small, value_digits]

end Digits

/-! ## What a printed string spells -/

/-- The string spells a number, which a rest follows; a zero may be printed
without a digit. -/
structure Spells (base : Nat) (s rest : Text) (printed : Int) : Prop where
  digits :
    IsDigit base (char (subject base s)) = true →
      number base s = printed ∧ afterNumber base s = rest
  nothing : IsDigit base (char (subject base s)) = false → printed = 0

section Spells

variable {base : Nat} {run : Text} {magnitude : Nat}

/-- A run of blanks. -/
def spaces (count : Nat) : Text := List.replicate count 0x20

theorem isSpace_spaces (count : Nat) : ∀ c ∈ spaces count, IsSpace c := by
  intro c inside
  rw [spaces] at inside
  rw [List.eq_of_mem_replicate inside]
  decide

/-- What follows a printed number starts with a blank or is empty. -/
theorem char_spaces (count : Nat) :
    char (spaces count) = 0 ∨ char (spaces count) = 0x20 := by
  cases count with
  | zero => exact Or.inl rfl
  | succ count => exact Or.inr rfl

theorem spaces_stop (base count : Nat) :
    IsDigit base (char (spaces count)) = false := by
  rcases char_spaces count with nul | blank
  · rw [nul, IsDigit, digitValue_nul]
    rfl
  · rw [blank, Bool.eq_false_iff]
    intro isDigit
    exact (notSpace_of_isDigit isDigit).1 (by decide)

theorem not_hexMark_spaces
    (most : base ≤ 16) (prints : Prints base run magnitude) (count : Nat) :
    ¬ HexMark (run ++ spaces count) := by
  apply not_hexMark most prints.isDigit
  · rcases char_spaces count with nul | blank
    · rw [nul]
      decide
    · rw [blank]
      decide
  · rcases char_spaces count with nul | blank
    · rw [nul]
      decide
    · rw [blank]
      decide

/-- The digits behind a sign or a mark. -/
theorem spells_of_subject
    {s : Text} {count : Nat} (prints : Prints base run magnitude)
    (behind : subject base s = run ++ spaces count) :
    Spells base s (spaces count)
      (if (signed s).1 then -(magnitude : Int) else magnitude) := by
  have stops := spaces_stop base count
  constructor
  · intro _
    rw [number, afterNumber, behind, numberFrom_run prints.isDigit stops,
      dropWhile_run prints.isDigit stops, prints.value_eq]
    exact ⟨rfl, rfl⟩
  · intro noDigit
    rw [behind] at noDigit
    cases run with
    | nil =>
        have zero : magnitude = 0 := prints.value_eq.symm
        rw [zero, Int.ofNat_zero, neg_zero, ite_self]
    | cons c run =>
        have isDigit := prints.isDigit c List.mem_cons_self
        exact absurd isDigit (Bool.eq_false_iff.mp noDigit)

theorem subject_of_signed
    {s p : Text} {negative : Bool} (signs : signed s = (negative, p))
    (noMark : ¬ HexMark p) :
    subject base s = p := by
  rw [subject, signs]
  exact if_neg fun marked => noMark marked.2

/-- A number behind a minus sign is the negative one. -/
theorem spells_minus
    (most : base ≤ 16) (prints : Prints base run magnitude)
    (before after : Nat) :
    Spells base (spaces before ++ 0x2D :: (run ++ spaces after))
      (spaces after) (-magnitude) := by
  have signs :
      signed (spaces before ++ 0x2D :: (run ++ spaces after)) =
        (true, run ++ spaces after) := by
    rw [signed_blanks (isSpace_spaces before), signed_minus]
  have spells :=
    spells_of_subject prints
      (subject_of_signed signs (not_hexMark_spaces most prints after))
  rw [signs] at spells
  exact spells

theorem spells_plus
    (most : base ≤ 16) (prints : Prints base run magnitude)
    (before after : Nat) :
    Spells base (spaces before ++ 0x2B :: (run ++ spaces after))
      (spaces after) magnitude := by
  have signs :
      signed (spaces before ++ 0x2B :: (run ++ spaces after)) =
        (false, run ++ spaces after) := by
    rw [signed_blanks (isSpace_spaces before), signed_plus]
  have spells :=
    spells_of_subject prints
      (subject_of_signed signs (not_hexMark_spaces most prints after))
  rw [signs] at spells
  exact spells

theorem spells_plain
    (most : base ≤ 16) (prints : Prints base run magnitude)
    (before after : Nat) :
    Spells base (spaces before ++ (run ++ spaces after)) (spaces after)
      magnitude := by
  cases run with
  | nil =>
      have signs :
          signed (spaces before ++ ([] ++ spaces after)) = (false, []) := by
        rw [List.nil_append, ← List.append_nil (spaces after),
          signed_blanks (isSpace_spaces before),
          signed_blanks (isSpace_spaces after)]
        rfl
      have behind :
          subject base (spaces before ++ ([] ++ spaces after)) = [] :=
        subject_of_signed signs (by decide)
      constructor
      · intro isDigit
        rw [behind] at isDigit
        exact absurd isDigit (Bool.eq_false_iff.mp (spaces_stop base 0))
      · intro _
        exact congrArg Nat.cast prints.value_eq.symm
  | cons c run =>
      have signs :
          signed (spaces before ++ (c :: run ++ spaces after)) =
            (false, c :: run ++ spaces after) := by
        rw [signed_blanks (isSpace_spaces before)]
        exact signed_digits prints.isDigit (List.cons_ne_nil _ _)
      have spells :=
        spells_of_subject prints
          (subject_of_signed signs (not_hexMark_spaces most prints after))
      rw [signs] at spells
      exact spells

/-- A hexadecimal number may start with its mark. -/
theorem spells_mark
    (hex : base = 16) (prints : Prints base run magnitude)
    (nonempty : run ≠ []) {x : Byte} (mark : x = 0x78 ∨ x = 0x58)
    (before after : Nat) :
    Spells base (spaces before ++ 0x30 :: x :: (run ++ spaces after))
      (spaces after) magnitude := by
  subst hex
  have zero : ∀ c ∈ [(0x30 : Byte)], IsDigit 16 c = true := by decide
  have signs :
      signed (spaces before ++ 0x30 :: x :: (run ++ spaces after)) =
        (false, 0x30 :: x :: (run ++ spaces after)) := by
    rw [signed_blanks (isSpace_spaces before)]
    exact signed_digits zero (List.cons_ne_nil _ _)
  have first : IsDigit 16 (char (run ++ spaces after)) = true := by
    cases run with
    | nil => exact absurd rfl nonempty
    | cons c run => exact prints.isDigit c List.mem_cons_self
  have behind :
      subject 16 (spaces before ++ 0x30 :: x :: (run ++ spaces after)) =
        run ++ spaces after := by
    rw [subject, signs]
    exact if_pos ⟨rfl, rfl, mark, first⟩
  have spells := spells_of_subject prints behind
  rw [signs] at spells
  exact spells

end Spells

/-! ## What `int2base` prints -/

section Layout

variable {format : Format}

theorem prints_body
    (value : U64) (two : 2 ≤ format.base) (most : format.base ≤ 16)
    (count : Nat) :
    Prints format.base (zeros count ++ body format value) value.toNat := by
  have digits :
      Prints format.base
        (if format.prec = 0 ∧ value = 0 then []
        else numeral format.flags.lower format.base value.toNat)
        value.toNat := by
    by_cases none : format.prec = 0 ∧ value = 0
    · rw [if_pos none, none.2]
      exact prints_nil
    · rw [if_neg none]
      exact prints_numeral _ two most _
  have positive : 0 < format.base := by omega
  exact
    (digits.zeros_append positive most _).zeros_append positive most count

theorem numeral_ne_nil (lower : Bool) (base number : Nat) :
    numeral lower base number ≠ [] := by
  rw [numeral]
  by_cases zero : number = 0
  · rw [if_pos zero]
    exact List.cons_ne_nil _ _
  · rw [if_neg zero, Ne, List.map_eq_nil_iff, List.reverse_eq_nil_iff]
    exact Nat.digits_ne_nil_iff_ne_zero.mpr zero

theorem body_ne_nil {value : U64} (nonzero : value ≠ 0) :
    body format value ≠ [] := by
  have digits := numeral_ne_nil format.flags.lower format.base value.toNat
  rw [body, if_neg fun none => nonzero none.2]
  exact List.append_ne_nil_of_right_ne_nil _ digits

/-- The number with its prefix is read without the prefix. -/
theorem spells_number
    {sign : Option Byte} (value : U64) (two : 2 ≤ format.base)
    (most : format.base ≤ 16)
    (signs : ∀ c, sign = some c → c = 0x2D ∨ c = 0x2B ∨ c = 0x20)
    (before after : Nat) :
    Spells format.base
      (spaces before ++ (Int2base.number format sign value ++ spaces after))
      (spaces after)
      (if sign = some 0x2D then -(value.toNat : Int) else value.toNat) := by
  have prints := fun count => prints_body value two most count
  rw [Int2base.number, List.append_assoc (prefixOf _ _ _ _),
    List.append_assoc (prefixOf _ _ _ _)]
  cases sign with
  | some c =>
      rcases signs c rfl with rfl | rfl | rfl
      · rw [if_pos rfl]
        exact spells_minus most (prints _) before after
      · rw [if_neg (by decide)]
        exact spells_plus most (prints _) before after
      · have blank :
            ∀ s : Text,
              spaces before ++ ([0x20] ++ s) = spaces (before + 1) ++ s := by
          intro s
          rw [spaces, spaces, List.replicate_succ', List.append_assoc]
        rw [if_neg (by decide), prefixOf, blank]
        exact spells_plain most (prints _) (before + 1) after
  | none =>
      have plain :
          ∀ count,
            Spells format.base
              (spaces before ++
                ([] ++ (zeros count ++ body format value ++ spaces after)))
              (spaces after) value.toNat :=
        fun count => spells_plain most (prints count) before after
      rw [if_neg (by decide), prefixOf]
      by_cases alt : format.flags.alt = true
      · rw [if_pos alt]
        by_cases octal : format.base = 8
        · rw [if_pos octal]
          split
          · exact plain _
          · exact
              spells_plain most
                ((prints _).zeros_append (by omega) most 1) before after
        · rw [if_neg octal]
          by_cases hex : format.base = 16
          · rw [if_pos hex]
            by_cases zero : value = 0
            · rw [if_pos zero]
              exact plain _
            · have nonempty :
                  ∀ count, zeros count ++ body format value ≠ [] :=
                fun count =>
                  List.append_ne_nil_of_right_ne_nil _ (body_ne_nil zero)
              rw [if_neg zero]
              apply spells_mark hex (prints _) (nonempty _)
              split
              · exact Or.inl rfl
              · exact Or.inr rfl
          · rw [if_neg hex]
            exact plain _
      · rw [if_neg alt]
        exact plain _

/-- The signs of `int2base`. -/
theorem sign_cases (flags : Flags) (value : U64) :
    ∀ c, (signValue flags value).2 = some c →
      c = 0x2D ∨ c = 0x2B ∨ c = 0x20 := by
  intro c
  rw [signValue]
  split
  · intro impossible
    cases impossible
  · split
    · intro minus
      exact Or.inl (Option.some.inj minus).symm
    · dsimp only
      split
      · intro plus
        exact Or.inr (Or.inl (Option.some.inj plus).symm)
      · split
        · intro space
          exact Or.inr (Or.inr (Option.some.inj space).symm)
        · intro impossible
          cases impossible

/-- The value which was passed to `int2base`, as a number. -/
def intended (flags : Flags) (value : U64) : Int :=
  if flags.unsigned then value.toNat else value.toInt

theorem signValue_intended (flags : Flags) (value : U64) :
    (if (signValue flags value).2 = some 0x2D then
        -((signValue flags value).1.toNat : Int)
      else (signValue flags value).1.toNat) =
      intended flags value := by
  have bound := value.isLt
  rw [signValue, intended]
  by_cases unsigned : flags.unsigned = true
  · have noSign : ¬ (none : Option Byte) = some 0x2D := by decide
    rw [if_pos unsigned, if_pos unsigned]
    exact if_neg noSign
  · rw [if_neg unsigned, if_neg unsigned]
    by_cases negative : value.toInt < 0
    · rw [if_pos negative]
      dsimp only
      rw [if_pos rfl, BitVec.toNat_neg]
      rw [BitVec.toInt_eq_toNat_cond] at negative ⊢
      split at negative
      · omega
      · rw [if_neg (by assumption)]
        omega
    · have other :
          ¬ (if flags.plus then some (0x2B : Byte)
              else if flags.space then some 0x20 else none) = some 0x2D := by
        split
        · decide
        · split
          · decide
          · decide
      rw [if_neg negative]
      dsimp only
      rw [if_neg other]
      rw [BitVec.toInt_eq_toNat_cond] at negative ⊢
      split at negative
      · rw [if_pos (by assumption)]
      · omega

/-- The text of a number spells the number. -/
theorem spells_layout
    (value : U64) (two : 2 ≤ format.base) (most : format.base ≤ 16)
    (after : Nat) :
    Spells format.base (layout value format ++ spaces after) (spaces after)
      (intended format.flags value) := by
  rw [layout, List.append_assoc, ← signValue_intended]
  exact
    spells_number _ two most (sign_cases format.flags value) _ after

theorem inTable_spaces (count : Nat) : ∀ c ∈ spaces count, InTable c := by
  intro c inside
  rw [spaces] at inside
  rw [List.eq_of_mem_replicate inside]
  decide

theorem inTable_prefixOf
    {sign : Option Byte} (value : U64) (text : Text)
    (signs : ∀ c, sign = some c → c = 0x2D ∨ c = 0x2B ∨ c = 0x20) :
    ∀ c ∈ prefixOf format sign value text, InTable c := by
  have nothing : ∀ c ∈ ([] : Text), InTable c := by decide
  cases sign with
  | some c =>
      rcases signs c rfl with rfl | rfl | rfl
      · exact (by decide : ∀ c ∈ [(0x2D : Byte)], InTable c)
      · exact (by decide : ∀ c ∈ [(0x2B : Byte)], InTable c)
      · exact (by decide : ∀ c ∈ [(0x20 : Byte)], InTable c)
  | none =>
      rw [prefixOf]
      split
      · split
        · split
          · exact nothing
          · decide
        · split
          · split
            · exact nothing
            · cases format.flags.lower with
              | false => decide
              | true => decide
          · exact nothing
      · exact nothing

theorem inTable_layout
    (value : U64) (two : 2 ≤ format.base) (most : format.base ≤ 16)
    (after : Nat) :
    ∀ c ∈ layout value format ++ spaces after, InTable c := by
  intro c inside
  rw [layout, Int2base.number, List.append_assoc (prefixOf _ _ _ _)] at inside
  rcases List.mem_append.mp inside with printed | blank
  · rcases List.mem_append.mp printed with blank | text
    · exact inTable_spaces _ c blank
    · rcases List.mem_append.mp text with front | digit
      · exact
          inTable_prefixOf _ _ (sign_cases format.flags value) c front
      · exact
          inTable_of_isDigit ((prints_body _ two most _).isDigit c digit)
  · exact inTable_spaces after c blank

end Layout

/-- A number which is a `long` is not changed. -/
theorem value_of_clamped
    {result : Conversion} {value : U64}
    (clamped : Clamped result value.toInt) :
    result.value = value ∧ result.erange = false := by
  have low : longMin ≤ value.toInt := BitVec.le_toInt value
  have high : value.toInt ≤ longMax := by
    have below : value.toInt < 2 ^ 63 := BitVec.toInt_lt
    rw [longMax]
    omega
  rcases clamped with ⟨same, ranges⟩
  rw [min_eq_right high, max_eq_right low] at same
  refine ⟨BitVec.eq_of_toInt_eq same, ?_⟩
  rw [Bool.eq_false_iff, Ne, ranges]
  omega

/-- The function which reads a number as it was printed. -/
def readAs (unsigned : Bool) : Text → Int → Option Conversion :=
  if unsigned then strtoul else strtol

/-- What was printed is read as the number it was printed from, and up to the
blanks behind it unless it was a zero without digits. -/
theorem printed_number_is_read
    {garbage : Nat → Byte} {value : U64} {format : Format} {text : Text}
    (two : 2 ≤ format.base) (most : format.base ≤ 16)
    (printed : int2base garbage value format = .ok text) (after : Nat) :
    ∃ result,
      readAs format.flags.unsigned (text ++ spaces after) format.base =
          some result ∧
        result.value = value ∧ result.erange = false ∧
        (value ≠ 0 → result.endptr = some (spaces after)) := by
  rw [int2base_eq garbage value two most] at printed
  by_cases fits : Fits value format
  · rw [if_pos fits] at printed
    cases printed
    have spells := spells_layout value two most after
    have readable :
        Readable format.base (layout value format ++ spaces after) :=
      readable_of_inTable (inTable_layout value two most after) _
    have upTo : format.base ≤ 36 := most.trans (by decide)
    rw [readAs]
    cases unsigned : format.flags.unsigned with
    | false =>
        rcases strtol_reads readable two upTo with ⟨result, reads, meaning⟩
        have signed : intended format.flags value = value.toInt := by
          rw [intended, unsigned]
          rfl
        rw [signed] at spells
        refine ⟨result, reads, ?_⟩
        cases digit :
            IsDigit format.base
              (char (subject format.base (layout value format ++ spaces after))) with
        | false =>
            rw [digit] at meaning
            have zero : value = 0 :=
              BitVec.eq_of_toInt_eq (spells.nothing digit)
            subst meaning
            exact ⟨zero.symm, rfl, fun nonzero => absurd zero nonzero⟩
        | true =>
            rw [digit] at meaning
            rcases spells.digits digit with ⟨spelled, rest⟩
            rcases meaning with ⟨clamped, stops⟩
            rw [spelled] at clamped
            rcases value_of_clamped clamped with ⟨same, inRange⟩
            rw [rest] at stops
            exact ⟨same, inRange, fun _ => stops⟩
    | true =>
        have plain : intended format.flags value = value.toNat := by
          rw [intended, unsigned]
          rfl
        rw [plain] at spells
        have reads := strtoul_reads readable two upTo
        refine ⟨_, reads, ?_⟩
        cases digit :
            IsDigit format.base
              (char (subject format.base (layout value format ++ spaces after))) with
        | false =>
            have none := spells.nothing digit
            have zero : value = 0 := by
              apply BitVec.eq_of_toNat_eq
              exact Int.ofNat_inj.mp none
            exact ⟨zero.symm, rfl, fun nonzero => absurd zero nonzero⟩
        | true =>
            rcases spells.digits digit with ⟨spelled, rest⟩
            have small :
                numberFrom format.base 0
                    (subject format.base (layout value format ++ spaces after)) <
                  2 ^ 64 := by
              rw [← natAbs_number, spelled, Int.natAbs_natCast]
              exact value.isLt
            rw [if_pos rfl, if_pos small, spelled, rest, BitVec.ofInt_natCast]
            exact
              ⟨by rw [BitVec.ofNat_toNat, BitVec.setWidth_eq], rfl,
                fun _ => rfl⟩
  · rw [if_neg fits] at printed
    cases printed

end NopOS.Console.ReadBack
