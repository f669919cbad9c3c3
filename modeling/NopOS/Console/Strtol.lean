import NopOS.Lib.Numeral

/-!
# Reading numbers

`strtol` and `strtoul` of the C library.  A string is the list of its
characters without the `NUL`, and a pointer into it is the rest from there on.
The table of the character types is only read from `EOF` on; `none` is a read
in front of it.
-/

namespace NopOS.Console.Strtol

open NopOS.Lib.Numeral

/-- A character. -/
abbrev Byte := BitVec 8

/-- The type of the accumulated value. -/
abbrev U64 := BitVec 64

/-- The characters of a string before its NUL. -/
abbrev Text := List Byte

/-- `*p`. -/
def char (p : Text) : Byte := p.headD 0

/-! ## Character types -/

/-- A `char` is signed, and the first entry of `_CType` is that of `EOF`. -/
def InTable (c : Byte) : Prop := -1 ≤ c.toInt

instance (c : Byte) : Decidable (InTable c) :=
  inferInstanceAs (Decidable (_ ≤ _))

/-- The six white-space characters of the table. -/
def IsSpace (c : Byte) : Prop :=
  (0x09 ≤ c ∧ c ≤ 0x0D) ∨ c = 0x20

instance (c : Byte) : Decidable (IsSpace c) :=
  inferInstanceAs (Decidable (_ ∨ _))

/-- The entries of `lower`, of which that of `EOF` is zero. -/
def lower (c : Byte) : Byte :=
  if c = 0xFF then 0 else if 0x41 ≤ c ∧ c ≤ 0x5A then c + 0x20 else c

/-- `isspace`, with no value in front of the table. -/
def isspace (c : Byte) : Option Bool :=
  if InTable c then some (decide (IsSpace c)) else none

/-- `tolower`, with no value in front of the table. -/
def tolower (c : Byte) : Option Byte :=
  if InTable c then some (lower c) else none

/-- `_PDCLIB_digits`. -/
def digits : List Byte :=
  (List.range 10).map (fun i => BitVec.ofNat 8 (0x30 + i)) ++
    (List.range 26).map fun i => BitVec.ofNat 8 (0x61 + i)

/-- `memchr` over the first `n` bytes, as an index. -/
def memchr (s : List Byte) (c : Byte) (n : Nat) : Option Nat :=
  (s.take n).findIdx? fun other => other = c

/-- `memchr(_PDCLIB_digits, tolower(c), base)`. -/
def findDigit (base : Nat) (c : Byte) : Option (Option Nat) :=
  (tolower c).map fun c => memchr digits c base

/-! ## The functions -/

/-- The loop over white space. -/
def skipSpaces : Text → Option Text
  | [] => some []
  | c :: p => do
      if ← isspace c then skipSpaces p else return c :: p

/-- Skipping the sign. -/
def skipSign (p : Text) : Byte × Text :=
  if char p ≠ 0x2B ∧ char p ≠ 0x2D then (0x2B, p) else (char p, p.tail)

/-- Determining the base, and where the digits start. -/
def determineBase (p : Text) (base : Int) : Option (Int × Text) :=
  if char p = 0x30 then
    let zero := p
    let p := p.tail
    if (base = 0 ∨ base = 16) ∧ (char p = 0x78 ∨ char p = 0x58) then do
      let p := p.tail
      match ← findDigit 16 (char p) with
      -- `0x` without a digit behind it is rewound
      | none => return (16, zero)
      | some _ => return (16, p)
    else if base = 0 then some (8, p)
    else some (base, zero)
  else if base = 0 then some (10, p)
  else some (base, p)

/-- `_PDCLIB_strtox_prelim`: where the digits start, the sign and the base. -/
def strtoxPrelim (p : Text) (base : Int) : Option (Option Text × Byte × Int) := do
  let p ← skipSpaces p
  let (sign, p) := skipSign p
  let (base, p) ← determineBase p base
  return (if 2 ≤ base ∧ base ≤ 36 then some p else none, sign, base)

/-- What `_PDCLIB_strtox_main` returns and stores: `overflow` stands for
`ERANGE` and the sign it sets. -/
structure Scanned where
  rc : U64
  p : Option Text
  overflow : Bool
deriving DecidableEq

/-- The loop over the digits of a number which is too large. -/
def skipDigits (base : Nat) : Text → Option Text
  | [] => some []
  | c :: p => do
      match ← findDigit base c with
      | none => return c :: p
      | some _ => skipDigits base p

/-- The loop of `_PDCLIB_strtox_main`, after some digits or none. -/
def mainLoop (base : Nat) (error limval : U64) (limdigit : Int) :
    Text → U64 → Bool → Option Scanned
  | [], rc, anyDigit =>
      some ⟨rc, if anyDigit then some [] else none, false⟩
  | c :: p, rc, anyDigit => do
      match ← findDigit base c with
      | none => return ⟨rc, if anyDigit then some (c :: p) else none, false⟩
      | some digit =>
          if rc < limval ∨ rc = limval ∧ digit ≤ limdigit then
            mainLoop base error limval limdigit p
              (rc * BitVec.ofNat 64 base + BitVec.ofNat 64 digit) true
          else
            let p ← skipDigits base (c :: p)
            return ⟨error, some p, true⟩

/-- `_PDCLIB_strtox_main` from the first digit on, with nothing accumulated. -/
def strtoxMain (p : Text) (base : Nat) (error limval : U64) (limdigit : Int) :
    Option Scanned :=
  mainLoop base error limval limdigit p 0 false

/-- The value, what is stored to `endptr`, and whether `errno` is set. -/
structure Conversion where
  value : U64
  endptr : Option Text
  erange : Bool
deriving DecidableEq

/-- `LONG_MAX`. -/
def longMax : Int := 2 ^ 63 - 1

/-- `LONG_MIN`. -/
def longMin : Int := -2 ^ 63

/-- What the two functions do with the result of `_PDCLIB_strtox_main`. -/
def finish (s : Text) (sign : Byte) (scanned : Scanned) : Conversion where
  value :=
    if sign = 0x2B ∨ scanned.overflow then scanned.rc else -scanned.rc
  endptr := some (scanned.p.getD s)
  erange := scanned.overflow

/-- `strtol`, whose limit depends on the sign. -/
def strtol (s : Text) (base : Int) : Option Conversion := do
  match ← strtoxPrelim s base with
  | (none, _, _) => return ⟨0, none, false⟩
  | (some p, sign, base) =>
      let scanned ←
        if sign = 0x2B then
          strtoxMain p base.toNat (BitVec.ofInt 64 longMax)
            (BitVec.ofInt 64 (longMax.tdiv base)) (longMax.tmod base)
        else
          strtoxMain p base.toNat (BitVec.ofInt 64 longMin)
            (BitVec.ofInt 64 (longMin.tdiv (-base))) (-longMin.tmod base)
      return finish s sign scanned

/-- `strtoul`, whose limit does not. -/
def strtoul (s : Text) (base : Int) : Option Conversion := do
  match ← strtoxPrelim s base with
  | (none, _, _) => return ⟨0, none, false⟩
  | (some p, sign, base) =>
      let scanned ←
        strtoxMain p base.toNat (BitVec.ofNat 64 (2 ^ 64 - 1))
          (BitVec.ofNat 64 ((2 ^ 64 - 1) / base.toNat))
          (((2 ^ 64 - 1) % base.toNat : Nat) : Int)
      return finish s sign scanned

/-! ## Digits -/

/-- The digit which a character is in a base. -/
def digitValue (base : Nat) (c : Byte) : Option Nat :=
  memchr digits (lower c) base

theorem findDigit_eq {c : Byte} (inTable : InTable c) (base : Nat) :
    findDigit base c = some (digitValue base c) := by
  rw [findDigit, tolower, if_pos inTable]
  rfl

theorem digitValue_lt
    {base digit : Nat} {c : Byte} (here : digitValue base c = some digit) :
    digit < base := by
  have inside : digit < (digits.take base).length :=
    (List.findIdx?_eq_some_iff_findIdx_eq.mp here).1
  exact inside.trans_le (List.length_take_le _ _)

/-- The `NUL` behind a string is no digit. -/
theorem digitValue_nul (base : Nat) : digitValue base 0 = none := by
  have absent : ∀ other ∈ digits, ¬ other = lower 0 := by decide
  change (digits.take base).findIdx? _ = none
  rw [List.findIdx?_eq_none_iff]
  intro other inside
  exact decide_eq_false (absent other (List.mem_of_mem_take inside))

/-- A digit of the base. -/
def IsDigit (base : Nat) (c : Byte) : Bool := (digitValue base c).isSome

theorem digits_of_digitValue
    {base digit : Nat} {c : Byte} (here : digitValue base c = some digit) :
    digits[digit]? = some (lower c) := by
  have small := digitValue_lt here
  have found :=
    List.findIdx?_eq_some_iff_getElem.mp (here : (digits.take base).findIdx? _ = _)
  rcases found with ⟨inside, same, -⟩
  rw [← List.getElem?_take_of_lt small, List.getElem?_eq_getElem inside]
  exact congrArg some (of_decide_eq_true same)

theorem isDigit_iff {base : Nat} {c : Byte} :
    IsDigit base c = true ↔ ∃ digit, digitValue base c = some digit :=
  Option.isSome_iff_exists

theorem inTable_of_isDigit
    {base : Nat} {c : Byte} (isDigit : IsDigit base c = true) : InTable c := by
  have ascii : ∀ c : Byte, lower c ∈ digits → InTable c := by decide
  rcases isDigit_iff.mp isDigit with ⟨digit, here⟩
  exact ascii c (List.mem_of_getElem? (digits_of_digitValue here))

/-- What the digits at the start of a string spell behind a number. -/
def numberFrom (base before : Nat) (p : Text) : Nat :=
  value base before ((p.takeWhile (IsDigit base)).filterMap (digitValue base))

section Run

variable {base digit : Nat} {c : Byte} {p : Text}

theorem takeWhile_digit
    (here : digitValue base c = some digit) :
    (c :: p).takeWhile (IsDigit base) = c :: p.takeWhile (IsDigit base) := by
  rw [List.takeWhile_cons_of_pos]
  rw [IsDigit, here]
  rfl

theorem dropWhile_digit
    (here : digitValue base c = some digit) :
    (c :: p).dropWhile (IsDigit base) = p.dropWhile (IsDigit base) := by
  rw [List.dropWhile_cons_of_pos]
  rw [IsDigit, here]
  rfl

theorem takeWhile_other (here : digitValue base c = none) :
    (c :: p).takeWhile (IsDigit base) = [] := by
  rw [List.takeWhile_cons_of_neg]
  rw [IsDigit, here]
  exact Bool.false_ne_true

theorem dropWhile_other (here : digitValue base c = none) :
    (c :: p).dropWhile (IsDigit base) = c :: p := by
  rw [List.dropWhile_cons_of_neg]
  rw [IsDigit, here]
  exact Bool.false_ne_true

theorem numberFrom_digit
    (here : digitValue base c = some digit) (before : Nat) :
    numberFrom base before (c :: p) =
      numberFrom base (before * base + digit) p := by
  rw [numberFrom, takeWhile_digit here, List.filterMap_cons_some here]
  rfl

theorem numberFrom_other
    (here : digitValue base c = none) (before : Nat) :
    numberFrom base before (c :: p) = before := by
  rw [numberFrom, takeWhile_other here]
  rfl

end Run

/-- Only what stops the digits may be outside the table. -/
theorem inTable_head
    {base : Nat} {c : Byte} {p : Text}
    (stop : InTable (char ((c :: p).dropWhile (IsDigit base)))) :
    InTable c := by
  cases here : digitValue base c with
  | none =>
      rw [dropWhile_other here] at stop
      exact stop
  | some digit =>
      apply inTable_of_isDigit
      exact isDigit_iff.mpr ⟨digit, here⟩

/-- The rest of a number is skipped once it is too large. -/
theorem skipDigits_eq
    {base : Nat} {p : Text}
    (stop : InTable (char (p.dropWhile (IsDigit base)))) :
    skipDigits base p = some (p.dropWhile (IsDigit base)) := by
  induction p with
  | nil => rfl
  | cons c p induction =>
      rw [skipDigits, findDigit_eq (inTable_head stop)]
      cases here : digitValue base c with
      | none =>
          rw [dropWhile_other here]
          rfl
      | some digit =>
          rw [dropWhile_digit here] at stop ⊢
          exact induction stop

/-! ## The loop -/

section MainLoop

variable {base limit : Nat} {limval : U64} {limdigit : Int}

/-- What the loop ends with behind at least one digit. -/
def scanned (base limit before : Nat) (error : U64) (p : Text) : Scanned :=
  let rest := some (p.dropWhile (IsDigit base))
  if numberFrom base before p ≤ limit then
    ⟨BitVec.ofNat 64 (numberFrom base before p), rest, false⟩
  else ⟨error, rest, true⟩

/-- The loop accumulates up to its limit, by induction on the digits. -/
theorem mainLoop_eq
    {p : Text} (stop : InTable (char (p.dropWhile (IsDigit base))))
    (error : U64) (inWord : limit < 2 ^ 64)
    (quotient : limval.toNat = limit / base)
    (remainder : limdigit = (limit % base : Nat))
    {rc : U64} (within : rc.toNat ≤ limit) :
    mainLoop base error limval limdigit p rc true =
      some (scanned base limit rc.toNat error p) := by
  induction p generalizing rc with
  | nil =>
      have number : numberFrom base rc.toNat [] = rc.toNat := rfl
      rw [mainLoop, scanned, number, if_pos within, BitVec.ofNat_toNat,
        BitVec.setWidth_eq]
      rfl
  | cons c p induction =>
      rw [mainLoop, findDigit_eq (inTable_head stop)]
      cases here : digitValue base c with
      | none =>
          rw [scanned, numberFrom_other here, if_pos within,
            dropWhile_other here, BitVec.ofNat_toNat, BitVec.setWidth_eq]
          rfl
      | some digit =>
          have small := digitValue_lt here
          have positive : 0 < base := Nat.zero_lt_of_lt small
          have fits :
              rc < limval ∨ rc = limval ∧ (digit : Int) ≤ limdigit ↔
                rc.toNat * base + digit ≤ limit := by
            rw [← append_le_iff small, ← quotient, BitVec.lt_def,
              ← BitVec.toNat_inj, remainder, Int.ofNat_le]
          have later := stop
          rw [dropWhile_digit here] at later
          rw [scanned, numberFrom_digit here, dropWhile_digit here]
          change
            (if rc < limval ∨ rc = limval ∧ (digit : Int) ≤ limdigit then
              mainLoop base error limval limdigit p
                (rc * BitVec.ofNat 64 base + BitVec.ofNat 64 digit) true
            else skipDigits base (c :: p) >>= fun p =>
              some ⟨error, some p, true⟩) = _
          by_cases appends : rc.toNat * base + digit ≤ limit
          · have next :
                (rc * BitVec.ofNat 64 base + BitVec.ofNat 64 digit).toNat =
                  rc.toNat * base + digit := by
              rw [BitVec.toNat_add, BitVec.toNat_mul, BitVec.toNat_ofNat,
                BitVec.toNat_ofNat, Nat.mul_mod_mod, Nat.mod_add_mod,
                Nat.add_mod_mod]
              exact Nat.mod_eq_of_lt (by omega)
            rw [if_pos (fits.mpr appends),
              induction later (next.trans_le appends), next, scanned]
          · have larger :
                ¬ numberFrom base (rc.toNat * base + digit) p ≤ limit := by
              intro below
              exact appends ((le_value positive _).trans below)
            rw [if_neg (mt fits.mp appends), if_neg larger,
              skipDigits_eq stop, dropWhile_digit here]
            rfl

/-- From the start the loop may find no digit. -/
theorem strtoxMain_eq
    {p : Text} (stop : InTable (char (p.dropWhile (IsDigit base))))
    (error : U64) (inWord : limit < 2 ^ 64)
    (quotient : limval.toNat = limit / base)
    (remainder : limdigit = (limit % base : Nat)) :
    strtoxMain p base error limval limdigit =
      some
        (if IsDigit base (char p) then scanned base limit 0 error p
        else ⟨0, none, false⟩) := by
  cases p with
  | nil =>
      have noDigit : IsDigit base (char []) = false := by
        change (digitValue base 0).isSome = false
        rw [digitValue_nul]
        rfl
      rw [noDigit]
      rfl
  | cons c p =>
      cases here : digitValue base c with
      | none =>
          have noDigit : IsDigit base (char (c :: p)) = false := by
            change (digitValue base c).isSome = false
            rw [here]
            rfl
          rw [noDigit, strtoxMain, mainLoop,
            findDigit_eq (inTable_head stop), here]
          rfl
      | some digit =>
          have isDigit : IsDigit base (char (c :: p)) = true := by
            change (digitValue base c).isSome = true
            rw [here]
            rfl
          have zero : (0 : U64).toNat ≤ limit := Nat.zero_le limit
          have loop :=
            mainLoop_eq stop error inWord quotient remainder zero
          rw [isDigit, if_pos rfl, strtoxMain]
          refine Eq.trans ?_ loop
          rw [mainLoop, mainLoop, findDigit_eq (inTable_head stop), here]
          rfl

end MainLoop

/-! ## In front of the digits -/

theorem inTable_of_isSpace {c : Byte} (space : IsSpace c) : InTable c := by
  have ascii : ∀ c : Byte, IsSpace c → InTable c := by decide
  exact ascii c space

theorem skipSpaces_eq
    {p : Text} (stop : InTable (char (p.dropWhile fun c => IsSpace c))) :
    skipSpaces p = some (p.dropWhile fun c => IsSpace c) := by
  induction p with
  | nil => rfl
  | cons c p induction =>
      rw [skipSpaces, isspace]
      rw [List.dropWhile_cons] at stop ⊢
      by_cases space : IsSpace c
      · rw [if_pos (inTable_of_isSpace space)]
        simp only [space, decide_true, if_true] at stop ⊢
        exact induction stop
      · simp only [space, decide_false, Bool.false_eq_true, if_false] at stop ⊢
        have inTable : InTable c := stop
        rw [if_pos inTable]
        rfl

/-- Whether a number is negative, and what follows its sign. -/
def signed (s : Text) : Bool × Text :=
  let p := s.dropWhile fun c => IsSpace c
  if char p = 0x2D then (true, p.tail)
  else if char p = 0x2B then (false, p.tail)
  else (false, p)

/-- `0x` and a digit. -/
def HexMark (p : Text) : Prop :=
  char p = 0x30 ∧ (char p.tail = 0x78 ∨ char p.tail = 0x58) ∧
    IsDigit 16 (char p.tail.tail)

instance (p : Text) : Decidable (HexMark p) :=
  inferInstanceAs (Decidable (_ ∧ _ ∧ _))

/-- The digits behind the sign, and what follows them. -/
def subject (base : Nat) (s : Text) : Text :=
  let p := (signed s).2
  if base = 16 ∧ HexMark p then p.tail.tail else p

theorem inTable_char
    {p : Text} (inTable : ∀ c ∈ p, InTable c) : InTable (char p) := by
  cases p with
  | nil => exact (by decide : InTable 0)
  | cons c p => exact inTable c List.mem_cons_self

theorem inTable_suffix
    {p s : Text} (inTable : ∀ c ∈ s, InTable c) (suffix : p <:+ s) :
    ∀ c ∈ p, InTable c :=
  fun c inside => inTable c (suffix.subset inside)

theorem signed_suffix (s : Text) : (signed s).2 <:+ s := by
  have spaces : (s.dropWhile fun c => IsSpace c) <:+ s := List.dropWhile_suffix _
  rw [signed]
  split
  · exact (List.tail_suffix _).trans spaces
  · split
    · exact (List.tail_suffix _).trans spaces
    · exact spaces

theorem subject_suffix (base : Nat) (s : Text) : subject base s <:+ s := by
  rw [subject]
  split
  · exact
      ((List.tail_suffix _).trans (List.tail_suffix _)).trans (signed_suffix s)
  · exact signed_suffix s

theorem skipSign_eq (s : Text) :
    skipSign (s.dropWhile fun c => IsSpace c) =
      (if (signed s).1 then 0x2D else 0x2B, (signed s).2) := by
  rw [skipSign, signed]
  by_cases minus : char (s.dropWhile fun c => IsSpace c) = 0x2D
  · rw [if_neg fun other => other.2 minus, if_pos minus, minus]
    rfl
  · by_cases plus : char (s.dropWhile fun c => IsSpace c) = 0x2B
    · rw [if_neg fun other => other.1 plus, if_neg minus, if_pos plus, plus]
      rfl
    · rw [if_pos ⟨plus, minus⟩, if_neg minus, if_neg plus]
      rfl

/-- The mark `0x` belongs to the number if a digit follows. -/
theorem determineBase_eq
    {s : Text} {base : Nat} (two : 2 ≤ base)
    (third :
      base = 16 → char (signed s).2 = 0x30 →
        char (signed s).2.tail = 0x78 ∨ char (signed s).2.tail = 0x58 →
          InTable (char (signed s).2.tail.tail)) :
    determineBase (signed s).2 base = some ((base : Int), subject base s) := by
  have nonzero : ¬ (base : Int) = 0 := by omega
  have sixteen : (base : Int) = 16 ↔ base = 16 := by omega
  rw [determineBase, subject]
  simp only [nonzero, false_or, if_false, sixteen]
  by_cases zero : char (signed s).2 = 0x30
  · rw [if_pos zero]
    by_cases mark :
        base = 16 ∧
          (char (signed s).2.tail = 0x78 ∨ char (signed s).2.tail = 0x58)
    · rw [if_pos mark, findDigit_eq (third mark.1 zero mark.2)]
      obtain ⟨rfl, mark⟩ := mark
      cases here : digitValue 16 (char (signed s).2.tail.tail) with
      | none =>
          have noMark : ¬ HexMark (signed s).2 := by
            rintro ⟨-, -, digit⟩
            rw [IsDigit, here] at digit
            cases digit
          rw [if_neg fun marked => noMark marked.2]
          rfl
      | some digit =>
          have isDigit : IsDigit 16 (char (signed s).2.tail.tail) = true := by
            rw [IsDigit, here]
            rfl
          rw [if_pos ⟨rfl, zero, mark, isDigit⟩]
          rfl
    · rw [if_neg mark, if_neg fun marked => mark ⟨marked.1, marked.2.2.1⟩]
  · rw [if_neg zero, if_neg fun marked => zero marked.2.1]

/-- The characters of which the type is looked up are in the table. -/
structure Readable (base : Nat) (s : Text) : Prop where
  first : InTable (char (s.dropWhile fun c => IsSpace c))
  third :
    base = 16 → char (signed s).2 = 0x30 →
      char (signed s).2.tail = 0x78 ∨ char (signed s).2.tail = 0x58 →
        InTable (char (signed s).2.tail.tail)
  last : InTable (char ((subject base s).dropWhile (IsDigit base)))

theorem readable_of_inTable
    {s : Text} (inTable : ∀ c ∈ s, InTable c) (base : Nat) :
    Readable base s := by
  constructor
  · exact inTable_char (inTable_suffix inTable (List.dropWhile_suffix _))
  · intro _ _ _
    exact
      inTable_char
        (inTable_suffix inTable
          (((List.tail_suffix _).trans (List.tail_suffix _)).trans
            (signed_suffix s)))
  · exact
      inTable_char
        (inTable_suffix inTable
          ((List.dropWhile_suffix _).trans (subject_suffix base s)))

/-- Blanks, a sign and a base mark are taken off. -/
theorem strtoxPrelim_eq
    {s : Text} {base : Nat} (readable : Readable base s)
    (two : 2 ≤ base) (most : base ≤ 36) :
    strtoxPrelim s base =
      some
        (some (subject base s), if (signed s).1 then 0x2D else 0x2B,
          (base : Int)) := by
  have inRange : 2 ≤ (base : Int) ∧ (base : Int) ≤ 36 := by omega
  rw [strtoxPrelim, skipSpaces_eq readable.first]
  simp only [Option.bind_eq_bind, Option.bind_some, skipSign_eq,
    determineBase_eq two readable.third, if_pos inRange]
  rfl

/-! ## The number -/

/-- The number which a string spells, with its sign. -/
def number (base : Nat) (s : Text) : Int :=
  if (signed s).1 then -(numberFrom base 0 (subject base s) : Int)
  else numberFrom base 0 (subject base s)

theorem natAbs_number (base : Nat) (s : Text) :
    (number base s).natAbs = numberFrom base 0 (subject base s) := by
  rw [number]
  split
  · rw [Int.natAbs_neg, Int.natAbs_natCast]
  · rw [Int.natAbs_natCast]

/-- What follows the digits. -/
def afterNumber (base : Nat) (s : Text) : Text :=
  (subject base s).dropWhile (IsDigit base)

theorem toInt_ofInt_of_long
    {i : Int} (low : longMin ≤ i) (high : i ≤ longMax) :
    (BitVec.ofInt 64 i).toInt = i := by
  rw [longMin] at low
  rw [longMax] at high
  rw [BitVec.toInt_ofInt]
  exact Int.bmod_eq_of_le (by omega) (by omega)

/-- A bound and its last digit, as the functions pass them. -/
theorem strtoxMain_limit
    {p : Text} {base : Nat}
    (stop : InTable (char (p.dropWhile (IsDigit base)))) (error : U64)
    {limit : Nat} (inWord : limit < 2 ^ 64) :
    strtoxMain p base error (BitVec.ofNat 64 (limit / base))
        ((limit % base : Nat) : Int) =
      some
        (if IsDigit base (char p) then scanned base limit 0 error p
        else ⟨0, none, false⟩) := by
  apply strtoxMain_eq stop error inWord _ rfl
  rw [BitVec.toNat_ofNat]
  exact Nat.mod_eq_of_lt ((Nat.div_le_self limit base).trans_lt inWord)

theorem positive_limit (base : Nat) :
    BitVec.ofInt 64 (longMax.tdiv base) =
        BitVec.ofNat 64 ((2 ^ 63 - 1) / base) ∧
      longMax.tmod base = ((2 ^ 63 - 1) % base : Nat) := by
  have limit : longMax = ((2 ^ 63 - 1 : Nat) : Int) := rfl
  rw [limit, ← Int.ofNat_tdiv, ← Int.ofNat_tmod, BitVec.ofInt_natCast]
  exact ⟨rfl, rfl⟩

theorem negative_limit (base : Nat) :
    BitVec.ofInt 64 (longMin.tdiv (-base)) =
        BitVec.ofNat 64 (2 ^ 63 / base) ∧
      -longMin.tmod base = (2 ^ 63 % base : Nat) := by
  have limit : longMin = -((2 ^ 63 : Nat) : Int) := rfl
  rw [limit, Int.neg_tdiv_neg, Int.neg_tmod, neg_neg, ← Int.ofNat_tdiv,
    ← Int.ofNat_tmod, BitVec.ofInt_natCast]
  exact ⟨rfl, rfl⟩

/-- What `strtol` makes of a number of at least one digit. -/
def Clamped (result : Conversion) (i : Int) : Prop :=
  result.value.toInt = max longMin (min longMax i) ∧
    (result.erange = true ↔ i < longMin ∨ longMax < i)

theorem clamped_of_fits
    {i : Int} (low : longMin ≤ i) (high : i ≤ longMax)
    (endptr : Option Text) :
    Clamped ⟨BitVec.ofInt 64 i, endptr, false⟩ i := by
  constructor
  · rw [min_eq_right high, max_eq_right low]
    exact toInt_ofInt_of_long low high
  · constructor
    · intro impossible
      cases impossible
    · rintro (below | above)
      · exact absurd low (not_le.mpr below)
      · exact absurd high (not_le.mpr above)

/-- A number without minus is cut at `LONG_MAX`. -/
theorem clamped_positive (s : Text) (base : Nat) (p : Text) :
    Clamped
      (finish s 0x2B
        (scanned base (2 ^ 63 - 1) 0 (BitVec.ofInt 64 longMax) p))
      (numberFrom base 0 p) := by
  rw [scanned]
  by_cases fits : numberFrom base 0 p ≤ 2 ^ 63 - 1
  · rw [if_pos fits, ← BitVec.ofInt_natCast]
    apply clamped_of_fits
    · rw [longMin]
      omega
    · rw [longMax]
      omega
  · have above : longMax < numberFrom base 0 p := by
      rw [longMax]
      omega
    have ordered : longMin ≤ longMax := by decide
    rw [if_neg fits, Clamped, min_eq_left above.le, max_eq_right ordered]
    exact
      ⟨toInt_ofInt_of_long ordered le_rfl, fun _ => Or.inr above, fun _ => rfl⟩

theorem finish_minus (s : Text) (rc : U64) (p : Option Text) :
    finish s 0x2D ⟨rc, p, false⟩ = ⟨-rc, some (p.getD s), false⟩ :=
  rfl

/-- One with minus is cut at `LONG_MIN`. -/
theorem clamped_negative (s : Text) (base : Nat) (p : Text) :
    Clamped
      (finish s 0x2D (scanned base (2 ^ 63) 0 (BitVec.ofInt 64 longMin) p))
      (-(numberFrom base 0 p : Int)) := by
  rw [scanned]
  by_cases fits : numberFrom base 0 p ≤ 2 ^ 63
  · rw [if_pos fits, ← BitVec.ofInt_natCast, finish_minus, ← BitVec.ofInt_neg]
    apply clamped_of_fits
    · rw [longMin]
      omega
    · rw [longMax]
      omega
  · have below : -(numberFrom base 0 p : Int) < longMin := by
      rw [longMin]
      omega
    have ordered : longMin ≤ longMax := by decide
    rw [if_neg fits, Clamped, min_eq_right (below.le.trans ordered),
      max_eq_left below.le]
    exact
      ⟨toInt_ofInt_of_long le_rfl ordered, fun _ => Or.inl below, fun _ => rfl⟩

theorem endptr_finish_scanned
    (s : Text) (sign : Byte) (base limit : Nat) (error : U64) (p : Text) :
    (finish s sign (scanned base limit 0 error p)).endptr =
      some (p.dropWhile (IsDigit base)) := by
  rw [scanned]
  split
  · rfl
  · rfl

/-- `strtol` gives the number if it is a `long`, and else the nearest one; it
stops behind the last digit. -/
theorem strtol_reads
    {s : Text} {base : Nat} (readable : Readable base s)
    (two : 2 ≤ base) (most : base ≤ 36) :
    ∃ result,
      strtol s base = some result ∧
        if IsDigit base (char (subject base s)) then
          Clamped result (number base s) ∧
            result.endptr = some (afterNumber base s)
        else result = ⟨0, some s, false⟩ := by
  have toNat : (base : Int).toNat = base := Int.toNat_natCast base
  rw [strtol, strtoxPrelim_eq readable two most, number]
  simp only [Option.bind_eq_bind, Option.bind_some, toNat]
  cases negative : (signed s).1 with
  | false =>
      obtain ⟨limval, limdigit⟩ := positive_limit base
      simp only [Bool.false_eq_true, if_false, if_true]
      rw [limval, limdigit,
        strtoxMain_limit readable.last _ (by decide)]
      refine ⟨_, rfl, ?_⟩
      cases digit : IsDigit base (char (subject base s)) with
      | false => rfl
      | true =>
          exact
            ⟨clamped_positive s base (subject base s),
              endptr_finish_scanned s _ base _ _ _⟩
  | true =>
      obtain ⟨limval, limdigit⟩ := negative_limit base
      have other : ¬ (0x2D : Byte) = 0x2B := by decide
      simp only [if_true, if_neg other]
      rw [limval, limdigit,
        strtoxMain_limit readable.last _ (by decide)]
      refine ⟨_, rfl, ?_⟩
      cases digit : IsDigit base (char (subject base s)) with
      | false =>
          have zero : -(0 : U64) = 0 := by decide
          refine (finish_minus s 0 none).trans ?_
          rw [zero]
          rfl
      | true =>
          exact
            ⟨clamped_negative s base (subject base s),
              endptr_finish_scanned s _ base _ _ _⟩

/-! ## Unsigned numbers -/

theorem scanned_of_le
    {base limit : Nat} {p : Text} (fits : numberFrom base 0 p ≤ limit)
    (error : U64) :
    scanned base limit 0 error p =
      ⟨BitVec.ofNat 64 (numberFrom base 0 p),
        some (p.dropWhile (IsDigit base)), false⟩ :=
  if_pos fits

theorem scanned_of_lt
    {base limit : Nat} {p : Text} (large : limit < numberFrom base 0 p)
    (error : U64) :
    scanned base limit 0 error p =
      ⟨error, some (p.dropWhile (IsDigit base)), true⟩ :=
  if_neg (not_le.mpr large)

/-- `strtoul` gives the number modulo `2 ^ 64` if its digits fit, and else the
largest one. -/
theorem strtoul_reads
    {s : Text} {base : Nat} (readable : Readable base s)
    (two : 2 ≤ base) (most : base ≤ 36) :
    strtoul s base =
      some
        (if IsDigit base (char (subject base s)) then
          if numberFrom base 0 (subject base s) < 2 ^ 64 then
            ⟨BitVec.ofInt 64 (number base s), some (afterNumber base s), false⟩
          else ⟨BitVec.ofNat 64 (2 ^ 64 - 1), some (afterNumber base s), true⟩
        else ⟨0, some s, false⟩) := by
  have toNat : (base : Int).toNat = base := Int.toNat_natCast base
  rw [strtoul, strtoxPrelim_eq readable two most]
  simp only [Option.bind_eq_bind, Option.bind_some, toNat]
  rw [strtoxMain_limit readable.last _ (by decide)]
  refine congrArg some ?_
  cases digit : IsDigit base (char (subject base s)) with
  | false =>
      have zero : -(0 : U64) = 0 := by decide
      simp only [Bool.false_eq_true, if_false]
      rw [finish]
      dsimp only
      rw [zero, ite_self]
      rfl
  | true =>
      simp only [if_true]
      by_cases fits : numberFrom base 0 (subject base s) < 2 ^ 64
      · have within : numberFrom base 0 (subject base s) ≤ 2 ^ 64 - 1 := by
          omega
        rw [if_pos fits, scanned_of_le within, number, ← BitVec.ofInt_natCast]
        cases (signed s).1 with
        | false => rfl
        | true =>
            simp only [if_true]
            rw [finish_minus, BitVec.ofInt_neg]
            rfl
      · have beyond : 2 ^ 64 - 1 < numberFrom base 0 (subject base s) := by
          omega
        rw [if_neg fits, scanned_of_lt beyond, finish]
        simp only [or_true, if_true]
        rfl

/-! ## Numbers which are spelled -/

/-- A digit is neither a blank nor a sign. -/
theorem notSpace_of_isDigit
    {base : Nat} {c : Byte} (isDigit : IsDigit base c = true) :
    ¬ IsSpace c ∧ c ≠ 0x2D ∧ c ≠ 0x2B := by
  have apart :
      ∀ c : Byte, lower c ∈ digits → ¬ IsSpace c ∧ c ≠ 0x2D ∧ c ≠ 0x2B := by
    decide
  rcases isDigit_iff.mp isDigit with ⟨digit, here⟩
  exact apart c (List.mem_of_getElem? (digits_of_digitValue here))

/-- Up to base 16 the mark is no digit. -/
theorem notMark_of_isDigit
    {base : Nat} (most : base ≤ 16) {c : Byte} (isDigit : IsDigit base c = true) :
    ¬ (c = 0x78 ∨ c = 0x58) := by
  have apart : ∀ digit < 16, digits[digit]? ≠ some 0x78 := by decide
  rcases isDigit_iff.mp isDigit with ⟨digit, here⟩
  have below := (digitValue_lt here).trans_le most
  have shown := digits_of_digitValue here
  rintro (rfl | rfl)
  · exact apart digit below shown
  · exact apart digit below shown

section Spelled

variable {base : Nat} {blanks run rest : Text}

theorem signed_blanks
    (blank : ∀ c ∈ blanks, IsSpace c) (s : Text) :
    signed (blanks ++ s) = signed s := by
  rw [signed, signed, List.dropWhile_append_of_pos]
  intro c inside
  exact decide_eq_true (blank c inside)

theorem signed_minus (s : Text) : signed (0x2D :: s) = (true, s) :=
  rfl

theorem signed_plus (s : Text) : signed (0x2B :: s) = (false, s) :=
  rfl

theorem signed_digits
    (isRun : ∀ c ∈ run, IsDigit base c = true) (nonempty : run ≠ []) :
    signed (run ++ rest) = (false, run ++ rest) := by
  cases run with
  | nil => exact absurd rfl nonempty
  | cons c run =>
      rcases notSpace_of_isDigit (isRun c List.mem_cons_self) with
        ⟨noSpace, noMinus, noPlus⟩
      have kept :
          (c :: run ++ rest).dropWhile (fun c => IsSpace c) =
            c :: run ++ rest := by
        rw [List.cons_append, List.dropWhile_cons_of_neg]
        rwa [decide_eq_true_iff]
      rw [signed, kept]
      exact (if_neg noMinus).trans (if_neg noPlus)

theorem takeWhile_run
    (isRun : ∀ c ∈ run, IsDigit base c = true)
    (stops : IsDigit base (char rest) = false) :
    (run ++ rest).takeWhile (IsDigit base) = run := by
  rw [List.takeWhile_append_of_pos isRun]
  cases rest with
  | nil => exact List.append_nil run
  | cons c rest =>
      rw [List.takeWhile_cons_of_neg, List.append_nil]
      exact Bool.eq_false_iff.mp stops

theorem dropWhile_run
    (isRun : ∀ c ∈ run, IsDigit base c = true)
    (stops : IsDigit base (char rest) = false) :
    (run ++ rest).dropWhile (IsDigit base) = rest := by
  rw [List.dropWhile_append_of_pos isRun]
  cases rest with
  | nil => rfl
  | cons c rest =>
      rw [List.dropWhile_cons_of_neg]
      exact Bool.eq_false_iff.mp stops

theorem numberFrom_run
    (isRun : ∀ c ∈ run, IsDigit base c = true)
    (stops : IsDigit base (char rest) = false) (before : Nat) :
    numberFrom base before (run ++ rest) =
      value base before (run.filterMap (digitValue base)) := by
  rw [numberFrom, takeWhile_run isRun stops]

/-- Digits do not start with a mark up to base 16. -/
theorem not_hexMark
    (most : base ≤ 16) (isRun : ∀ c ∈ run, IsDigit base c = true)
    (noZero : char rest ≠ 0x30)
    (noMark : ¬ (char rest = 0x78 ∨ char rest = 0x58)) :
    ¬ HexMark (run ++ rest) := by
  rintro ⟨starts, marked, -⟩
  cases run with
  | nil => exact noZero starts
  | cons c run =>
      cases run with
      | nil => exact noMark marked
      | cons second run =>
          have later : second ∈ c :: second :: run :=
            List.mem_cons_of_mem _ List.mem_cons_self
          exact notMark_of_isDigit most (isRun second later) marked

end Spelled

/-! ## Outside the table -/

section Outside

variable {base : Nat} {s p : Text} {c : Byte}

theorem findDigit_of_outside (outside : ¬ InTable c) :
    findDigit base c = none := by
  rw [findDigit, tolower, if_neg outside]
  rfl

theorem inTable_nul : InTable 0 := by
  decide

theorem skipSpaces_outside
    (stop : ¬ InTable (char (p.dropWhile fun c => IsSpace c))) :
    skipSpaces p = none := by
  induction p with
  | nil => exact absurd inTable_nul stop
  | cons c p induction =>
      rw [skipSpaces, isspace]
      rw [List.dropWhile_cons] at stop
      by_cases space : IsSpace c
      · rw [if_pos (inTable_of_isSpace space)]
        simp only [space, decide_true, if_true] at stop ⊢
        exact induction stop
      · simp only [space, decide_false, Bool.false_eq_true, if_false] at stop
        have outside : ¬ InTable c := stop
        rw [if_neg outside]
        rfl

theorem determineBase_outside
    (zero : char p = 0x30) (mark : char p.tail = 0x78 ∨ char p.tail = 0x58)
    (outside : ¬ InTable (char p.tail.tail)) :
    determineBase p 16 = none := by
  have hex : ((16 : Int) = 0 ∨ (16 : Int) = 16) := Or.inr rfl
  rw [determineBase, if_pos zero]
  dsimp only
  rw [if_pos ⟨hex, mark⟩, findDigit_of_outside outside]
  rfl

theorem skipDigits_outside
    (stop : ¬ InTable (char (p.dropWhile (IsDigit base)))) :
    skipDigits base p = none := by
  induction p with
  | nil => exact absurd inTable_nul stop
  | cons c p induction =>
      rw [skipDigits]
      cases here : digitValue base c with
      | none =>
          rw [dropWhile_other here] at stop
          have outside : ¬ InTable c := stop
          rw [findDigit_of_outside outside]
          rfl
      | some digit =>
          have inTable : InTable c :=
            inTable_of_isDigit (isDigit_iff.mpr ⟨digit, here⟩)
          rw [dropWhile_digit here] at stop
          rw [findDigit_eq inTable, here]
          exact induction stop

theorem mainLoop_outside
    (stop : ¬ InTable (char (p.dropWhile (IsDigit base))))
    (error limval : U64) (limdigit : Int) (rc : U64) (anyDigit : Bool) :
    mainLoop base error limval limdigit p rc anyDigit = none := by
  induction p generalizing rc anyDigit with
  | nil => exact absurd inTable_nul stop
  | cons c p induction =>
      have later := skipDigits_outside stop
      rw [mainLoop]
      cases here : digitValue base c with
      | none =>
          rw [dropWhile_other here] at stop
          have outside : ¬ InTable c := stop
          rw [findDigit_of_outside outside]
          rfl
      | some digit =>
          have inTable : InTable c :=
            inTable_of_isDigit (isDigit_iff.mpr ⟨digit, here⟩)
          rw [dropWhile_digit here] at stop
          rw [findDigit_eq inTable, here]
          change
            (if rc < limval ∨ rc = limval ∧ (digit : Int) ≤ limdigit then
              mainLoop base error limval limdigit p
                (rc * BitVec.ofNat 64 base + BitVec.ofNat 64 digit) true
            else skipDigits base (c :: p) >>= fun p =>
              some ⟨error, some p, true⟩) = none
          split
          · exact induction stop _ _
          · rw [later]
            rfl

/-- The string is looked at outside the table before or behind its sign, or
at the end of its digits. -/
theorem strtoxPrelim_outside
    (outside : ¬ Readable base s) (two : 2 ≤ base) (most : base ≤ 36) :
    strtoxPrelim s base = none ∨
      strtoxPrelim s base =
          some
            (some (subject base s), if (signed s).1 then 0x2D else 0x2B,
              (base : Int)) ∧
        ¬ InTable (char ((subject base s).dropWhile (IsDigit base))) := by
  by_cases first : InTable (char (s.dropWhile fun c => IsSpace c))
  · by_cases third :
        base = 16 → char (signed s).2 = 0x30 →
          char (signed s).2.tail = 0x78 ∨ char (signed s).2.tail = 0x58 →
            InTable (char (signed s).2.tail.tail)
    · refine Or.inr ⟨?_, fun last => outside ⟨first, third, last⟩⟩
      have inRange : 2 ≤ (base : Int) ∧ (base : Int) ≤ 36 := by omega
      rw [strtoxPrelim, skipSpaces_eq first]
      simp only [Option.bind_eq_bind, Option.bind_some, skipSign_eq,
        determineBase_eq two third, if_pos inRange]
      rfl
    · push Not at third
      rcases third with ⟨rfl, zero, mark, outside⟩
      left
      rw [strtoxPrelim, skipSpaces_eq first]
      simp only [Option.bind_eq_bind, Option.bind_some, skipSign_eq]
      have nothing := determineBase_outside zero mark outside
      rw [Nat.cast_ofNat, nothing]
      rfl
  · left
    rw [strtoxPrelim, skipSpaces_outside first]
    rfl

/-- A character in front of the table is looked up there. -/
theorem strtol_outside
    (outside : ¬ Readable base s) (two : 2 ≤ base) (most : base ≤ 36) :
    strtol s base = none := by
  rw [strtol]
  rcases strtoxPrelim_outside outside two most with nothing | ⟨found, stop⟩
  · rw [nothing]
    rfl
  · rw [found]
    simp only [Option.bind_eq_bind, Option.bind_some, Int.toNat_natCast,
      strtoxMain, mainLoop_outside stop, ite_self, Option.bind_none]

/-- And so it is for `strtoul`. -/
theorem strtoul_outside
    (outside : ¬ Readable base s) (two : 2 ≤ base) (most : base ≤ 36) :
    strtoul s base = none := by
  rw [strtoul]
  rcases strtoxPrelim_outside outside two most with nothing | ⟨found, stop⟩
  · rw [nothing]
    rfl
  · rw [found]
    simp only [Option.bind_eq_bind, Option.bind_some, Int.toNat_natCast,
      strtoxMain, mainLoop_outside stop, Option.bind_none]

end Outside

/-- Both functions read the number which a string spells if the string is
readable, and else look up a character type outside the table. -/
theorem number_or_outside
    (s : Text) {base : Nat} (two : 2 ≤ base) (most : base ≤ 36) :
    (Readable base s →
      (∃ result,
        strtol s base = some result ∧
          if IsDigit base (char (subject base s)) then
            Clamped result (number base s) ∧
              result.endptr = some (afterNumber base s)
          else result = ⟨0, some s, false⟩) ∧
        strtoul s base =
          some
            (if IsDigit base (char (subject base s)) then
              if numberFrom base 0 (subject base s) < 2 ^ 64 then
                ⟨BitVec.ofInt 64 (number base s), some (afterNumber base s),
                  false⟩
              else
                ⟨BitVec.ofNat 64 (2 ^ 64 - 1), some (afterNumber base s),
                  true⟩
            else ⟨0, some s, false⟩)) ∧
      (¬ Readable base s → strtol s base = none ∧ strtoul s base = none) := by
  constructor
  · intro readable
    exact ⟨strtol_reads readable two most, strtoul_reads readable two most⟩
  · intro outside
    exact ⟨strtol_outside outside two most, strtoul_outside outside two most⟩

/-- The number ends in front of a byte, which is in the table or not. -/
theorem number_or_outside_hexadecimal :
    (∃ result,
      strtol [0x20, 0x2D, 0x30, 0x78, 0x31, 0x46, 0x5F] (16 : Nat) =
          some result ∧
        result.value.toInt = -0x1F ∧ result.endptr = some [0x5F]) ∧
      strtol [0x20, 0x2D, 0x30, 0x78, 0x31, 0x46, 0x80] (16 : Nat) = none := by
  have two : 2 ≤ 16 := by decide
  have most : 16 ≤ 36 := by decide
  constructor
  · have inTable :
        ∀ c ∈ [(0x20 : Byte), 0x2D, 0x30, 0x78, 0x31, 0x46, 0x5F],
          InTable c := by
      decide
    rcases
        ((number_or_outside _ two most).1 (readable_of_inTable inTable 16)).1
      with ⟨result, reads, meaning⟩
    rw [if_pos (by decide)] at meaning
    exact ⟨result, reads, meaning.1.1, meaning.2⟩
  · apply ((number_or_outside _ two most).2 _).1
    exact fun readable => absurd readable.last (by decide)

end NopOS.Console.Strtol
