import NopOS.Console.NumberFormat

/-!
# Formatted log lines

`tfp_format` with `PRINTF_LONG_SUPPORT`, and the functions of the logger which
call it.  A format is the list of its characters.  The arguments are the
64-bit slots of a `va_list`, of which a conversion without `l` reads the low
half.
-/

namespace NopOS.Console.Printf

open NopOS.Console.NumberFormat

/-- The slots which are still to be read. -/
abbrev VaList := Nat → BitVec 64

/-- What the console received. -/
abbrev Text := List Byte

/-! ## Directives -/

/-- What stands behind a `%`: flag, width, length and character. -/
structure Directive where
  lz : Bool
  w : BitVec 32
  lng : Bool
  ch : Byte

/-- `ch=*(src++)`, at most once at the end of the string. -/
def next : List Byte → Byte × List Byte
  | [] => (0, [])
  | ch :: src => (ch, src)

/-- `a2d`: the value of a hexadecimal digit, or -1. -/
def a2d (ch : Byte) : Int :=
  if 0x30 ≤ ch ∧ ch ≤ 0x39 then ch.toNat - 0x30
  else if 0x61 ≤ ch ∧ ch ≤ 0x66 then ch.toNat - 0x61 + 10
  else if 0x41 ≤ ch ∧ ch ≤ 0x46 then ch.toNat - 0x41 + 10
  else -1

/-- `(digit=a2d(ch))>=0` and not `digit>base`. -/
def IsDigit (base : Int) (ch : Byte) : Prop :=
  0 ≤ a2d ch ∧ a2d ch ≤ base

instance (base : Int) (ch : Byte) : Decidable (IsDigit base ch) :=
  inferInstanceAs (Decidable (_ ∧ _))

/-- `num*base+digit`. -/
def appendDigit (base : Int) (num : BitVec 32) (ch : Byte) : BitVec 32 :=
  num * BitVec.ofInt 32 base + BitVec.ofInt 32 (a2d ch)

/-- The last character read, what follows it, and the number.  The `NUL`
behind the string is no digit. -/
def a2i (base : Int) : Byte → List Byte → BitVec 32 →
    Byte × List Byte × BitVec 32
  | ch, [], num =>
      if IsDigit base ch then (0, [], appendDigit base num ch)
      else (ch, [], num)
  | ch, following :: src, num =>
      if IsDigit base ch then
        a2i base following src (appendDigit base num ch)
      else (ch, following :: src, num)

/-- The part of `tfp_format` between a `%` and the `switch`. -/
def directive (fmt : List Byte) : Directive × List Byte :=
  let (ch, fmt) := next fmt
  let lz : Bool := ch = 0x30
  let (ch, fmt) := if lz then next fmt else (ch, fmt)
  let (ch, fmt, w) :=
    if 0x30 ≤ ch ∧ ch ≤ 0x39 then a2i 10 ch fmt 0 else (ch, fmt, 0)
  let lng : Bool := ch = 0x6c
  let (ch, fmt) := if lng then next fmt else (ch, fmt)
  ({ lz := lz, w := w, lng := lng, ch := ch }, fmt)

/-- `while (*p++ && n > 0) n--;` -/
def widthLeft : Text → Int → Int
  | [], n => n
  | _ :: p, n => if 0 < n then widthLeft p (n - 1) else n

/-- `putchw`, for the characters before the `NUL`. -/
def putchw (n : BitVec 32) (z : Bool) (string : Text) : Text :=
  let fc : Byte := if z then 0x30 else 0x20
  List.replicate (widthLeft string n.toInt).toNat fc ++ string

/-- The conversion of a number into `bf`, if the directive is one. -/
def Directive.number (d : Directive) (slot : BitVec 64) :
    Option (Except Fault Scratch) :=
  if d.ch = 0x75 then
    some
      (if d.lng then uli2a slot 10 false []
      else ui2a (slot.setWidth 32) 10 false [])
  else if d.ch = 0x64 then
    some (if d.lng then li2a slot [] else i2a (slot.setWidth 32) [])
  else if d.ch = 0x78 ∨ d.ch = 0x58 then
    some
      (if d.lng then uli2a slot 16 (d.ch = 0x58) []
      else ui2a (slot.setWidth 32) 16 (d.ch = 0x58) [])
  else none

/-- The `switch`: what is put, and the slots which are left. -/
def Directive.execute
    (d : Directive) (strings : BitVec 64 → Text) (va : VaList) :
    Except Fault (Text × VaList) :=
  let later : VaList := fun k => va (k + 1)
  match d.number (va 0) with
  | some conversion => do
      let bf ← conversion
      return (putchw d.w d.lz (bf.takeWhile (· ≠ 0)), later)
  | none =>
      if d.ch = 0x63 then .ok ([(va 0).setWidth 8], later)
      else if d.ch = 0x73 then
        .ok (putchw d.w false (strings (va 0)), later)
      else if d.ch = 0x25 then .ok ([d.ch], va)
      else .ok ([], va)

/-! ## The loop over the format -/

/-- The loop of `tfp_format` over the characters of the format. -/
def formatLoop (strings : BitVec 64 → Text) :
    Nat → List Byte → VaList → Text → Except Fault Text
  | 0, _, _, _ => .error .outOfFuel
  | fuel + 1, fmt, va, out =>
      let (ch, fmt) := next fmt
      if ch = 0 then .ok out
      else if ch ≠ 0x25 then formatLoop strings fuel fmt va (out ++ [ch])
      else
        let (d, fmt) := directive fmt
        if d.ch = 0 then .ok out
        else do
          let (text, va) ← d.execute strings va
          formatLoop strings fuel fmt va (out ++ text)

/-- `tfp_format`.  A pointer stands for the string at it. -/
def tfpFormat
    (strings : BitVec 64 → Text) (fmt : List Byte) (va : VaList) :
    Except Fault Text :=
  formatLoop strings (fmt.length + 1) fmt va []

/-! ## The logger -/

/-- `level`. -/
inductive Level where
  | debug
  | info
deriving DecidableEq

/-- `debug` and `vdebug`, for a module of some level. -/
def vdebug
    (strings : BitVec 64 → Text) (lvl : Level) (fmt : List Byte)
    (va : VaList) : Except Fault Text :=
  if lvl ≠ .debug then .ok [] else tfpFormat strings fmt va

/-- `info` and `vinfo`. -/
def vinfo
    (strings : BitVec 64 → Text) (fmt : List Byte) (va : VaList) :
    Except Fault Text := tfpFormat strings fmt va

/-- The characters of a literal. -/
def chars (string : String) : List Byte :=
  string.toList.map fun ch => BitVec.ofNat 8 ch.toNat

/-- The message of `general_protection`. -/
def generalProtection
    (strings : BitVec 64 → Text) (rip : BitVec 64) : Except Fault Text :=
  vinfo strings (chars "#GP: RIP %lx\n") fun _ => rip

/-! ## The conversions of a format -/

/-- The directive reads a slot. -/
def Directive.Consumes (d : Directive) : Prop :=
  d.ch = 0x75 ∨ d.ch = 0x64 ∨ (d.ch = 0x78 ∨ d.ch = 0x58) ∨ d.ch = 0x63 ∨
    d.ch = 0x73

instance (d : Directive) : Decidable d.Consumes :=
  inferInstanceAs (Decidable (_ ∨ _))

/-- The slots behind the directive. -/
def Directive.rest (d : Directive) (va : VaList) : VaList :=
  if d.Consumes then fun k => va (k + 1) else va

/-- The directives which are met in a format, with the slots they find. -/
def directivesLoop : Nat → List Byte → VaList → List (Directive × BitVec 64)
  | 0, _, _ => []
  | fuel + 1, fmt, va =>
      let (ch, fmt) := next fmt
      if ch = 0 then []
      else if ch ≠ 0x25 then directivesLoop fuel fmt va
      else
        let (d, fmt) := directive fmt
        if d.ch = 0 then []
        else (d, va 0) :: directivesLoop fuel fmt (d.rest va)

/-- The directives of a format with the arguments they take. -/
def directives (fmt : List Byte) (va : VaList) :
    List (Directive × BitVec 64) :=
  directivesLoop (fmt.length + 1) fmt va

/-- With `l`, eleven characters are enough for the number. -/
def Directive.Fits (d : Directive) (slot : BitVec 64) : Prop :=
  d.lng = true →
    (d.ch = 0x75 → slot.toNat < 10 ^ 11) ∧
      (d.ch = 0x64 → -10 ^ 10 < slot.toInt ∧ slot.toInt < 10 ^ 11) ∧
        (d.ch = 0x78 ∨ d.ch = 0x58 → slot.toNat < 16 ^ 11)

/-! ## One conversion -/

/-- A condition under which a program returns, and fails otherwise. -/
def ReturnsIff {Result : Type} (program : Except Fault Result)
    (condition : Prop) : Prop :=
  (condition → ∃ result, program = .ok result) ∧
    (¬ condition → program = .error .overrun)

theorem returnsIff_of_if
    {Result : Type} {condition : Prop} [Decidable condition]
    {program : Except Fault Result} {result : Result}
    (answer :
      program = if condition then .ok result else .error .overrun) :
    ReturnsIff program condition := by
  constructor
  · intro holds
    exact ⟨result, by rw [answer, if_pos holds]⟩
  · intro fails
    rw [answer, if_neg fails]

theorem uli2a_returnsIff
    (slot base : BitVec 64) (two : 2 ≤ base.toNat)
    (small : base.toNat < 2 ^ 31) (uc : Bool) :
    ReturnsIff (uli2a slot base uc []) (slot.toNat < base.toNat ^ 11) :=
  returnsIff_of_if (u2a_nil slot two small uc)

theorem li2a_returnsIff (slot : BitVec 64) :
    ReturnsIff (li2a slot [])
      (-10 ^ 10 < slot.toInt ∧ slot.toInt < 10 ^ 11) := by
  have answer := s2a_nil slot (by decide)
  by_cases negative : slot.toInt < 0
  · rw [if_pos negative] at answer
    have condition :
        (-10 ^ 10 < slot.toInt ∧ slot.toInt < 10 ^ 11) ↔
          slot.toInt.natAbs < 10 ^ 10 := by
      omega
    rw [condition]
    exact returnsIff_of_if answer
  · rw [if_neg negative] at answer
    have condition :
        (-10 ^ 10 < slot.toInt ∧ slot.toInt < 10 ^ 11) ↔
          slot.toInt.natAbs < 10 ^ 11 := by
      omega
    rw [condition]
    exact returnsIff_of_if answer

/-- Ten decimal or eight hexadecimal digits always fit. -/
theorem ui2a_returns
    (num base : BitVec 32) (ten : 10 ≤ base.toNat)
    (small : base.toNat < 2 ^ 31) (uc : Bool) :
    ∃ bf, ui2a num base uc [] = .ok bf := by
  have power : 10 ^ 11 ≤ base.toNat ^ 11 := Nat.pow_le_pow_left ten 11
  have bound := num.isLt
  have answer := u2a_nil num (by omega) small uc
  rw [if_pos (by omega)] at answer
  exact ⟨_, answer⟩

theorem i2a_returns (num : BitVec 32) : ∃ bf, i2a num [] = .ok bf := by
  have answer := s2a_nil num (by decide)
  have lower := num.le_two_mul_toInt
  have upper := num.two_mul_toInt_lt
  rw [if_pos (c := num.toInt.natAbs < 10 ^ 10) (by omega),
    if_pos (c := num.toInt.natAbs < 10 ^ 11) (by omega)] at answer
  split at answer
  · exact ⟨_, answer⟩
  · exact ⟨_, answer⟩

theorem ReturnsIff.of_returns
    {Result : Type} {program : Except Fault Result} {condition : Prop}
    (returns : ∃ result, program = .ok result) (holds : condition) :
    ReturnsIff program condition :=
  ⟨fun _ => returns, fun fails => absurd holds fails⟩

theorem ReturnsIff.congr
    {Result : Type} {program : Except Fault Result}
    {condition other : Prop} (returns : ReturnsIff program condition)
    (same : other ↔ condition) : ReturnsIff program other :=
  ⟨fun holds => returns.1 (same.mp holds),
    fun fails => returns.2 (mt same.mpr fails)⟩

/-- The conversion of a number returns if and only if the number fits. -/
theorem Directive.number_returnsIff
    (d : Directive) (slot : BitVec 64) {conversion : Except Fault Scratch}
    (isNumber : d.number slot = some conversion) :
    ReturnsIff conversion (d.Fits slot) := by
  unfold Directive.number at isNumber
  split at isNumber
  · next unsigned =>
    cases isNumber
    cases long : d.lng with
    | false =>
        exact .of_returns (ui2a_returns _ 10 (by decide) (by decide) _)
          (fun isLong => absurd (long.symm.trans isLong) (by decide))
    | true =>
        refine (uli2a_returnsIff slot 10 (by decide) (by decide) _).congr ?_
        simp [Directive.Fits, long, unsigned]
  · split at isNumber
    · next signed =>
      cases isNumber
      cases long : d.lng with
      | false =>
          exact .of_returns (i2a_returns _)
            (fun isLong => absurd (long.symm.trans isLong) (by decide))
      | true =>
          refine (li2a_returnsIff slot).congr ?_
          simp [Directive.Fits, long, signed]
    · split at isNumber
      · next unsigned signed hexadecimal =>
        cases isNumber
        cases long : d.lng with
        | false =>
            exact .of_returns (ui2a_returns _ 16 (by decide) (by decide) _)
              (fun isLong => absurd (long.symm.trans isLong) (by decide))
        | true =>
            refine
              (uli2a_returnsIff slot 16 (by decide) (by decide) _).congr ?_
            constructor
            · exact fun fits => (fits long).2.2 hexadecimal
            · intro small _
              exact ⟨fun same => absurd same unsigned,
                fun same => absurd same signed, fun _ => small⟩
      · cases isNumber

theorem Directive.number_eq_none_iff
    (d : Directive) (slot : BitVec 64) :
    d.number slot = none ↔
      ¬ d.ch = 0x75 ∧ ¬ d.ch = 0x64 ∧ ¬ (d.ch = 0x78 ∨ d.ch = 0x58) := by
  unfold Directive.number
  split_ifs with unsigned signed hexadecimal
  all_goals simp_all

/-- What is no number has nothing to fit. -/
theorem Directive.fits_of_number_none
    (d : Directive) (slot : BitVec 64) (noNumber : d.number slot = none) :
    d.Fits slot := by
  rcases (d.number_eq_none_iff slot).mp noNumber with
    ⟨unsigned, signed, hexadecimal⟩
  intro _
  exact ⟨fun same => absurd same unsigned, fun same => absurd same signed,
    fun same => absurd same hexadecimal⟩

/-- A directive whose number fits is printed. -/
theorem Directive.execute_fits
    (d : Directive) (strings : BitVec 64 → Text) (va : VaList)
    (fits : d.Fits (va 0)) :
    ∃ text, d.execute strings va = .ok (text, d.rest va) := by
  have noNumber := d.number_eq_none_iff (va 0)
  unfold Directive.execute Directive.rest
  cases isNumber : d.number (va 0) with
  | some conversion =>
      rcases (d.number_returnsIff _ isNumber).1 fits with ⟨bf, returns⟩
      have consumes : d.Consumes := by
        rw [isNumber] at noNumber
        unfold Directive.Consumes
        tauto
      simp only [returns, if_pos consumes]
      exact ⟨_, rfl⟩
  | none =>
      rcases noNumber.mp isNumber with ⟨unsigned, signed, hexadecimal⟩
      have consumes : d.Consumes ↔ d.ch = 0x63 ∨ d.ch = 0x73 := by
        unfold Directive.Consumes
        tauto
      by_cases character : d.ch = 0x63
      · simp only [if_pos character, if_pos (consumes.mpr (Or.inl character))]
        exact ⟨_, rfl⟩
      · by_cases string : d.ch = 0x73
        · simp only [if_neg character, if_pos string,
            if_pos (consumes.mpr (Or.inr string))]
          exact ⟨_, rfl⟩
        · have keeps : ¬ d.Consumes := by
            rw [consumes]
            exact not_or.mpr ⟨character, string⟩
          simp only [if_neg character, if_neg string, if_neg keeps]
          split_ifs
          · exact ⟨_, rfl⟩
          · exact ⟨_, rfl⟩

/-- One whose number does not overruns the scratch buffer. -/
theorem Directive.execute_overrun
    (d : Directive) (strings : BitVec 64 → Text) (va : VaList)
    (tooLong : ¬ d.Fits (va 0)) :
    d.execute strings va = .error .overrun := by
  unfold Directive.execute
  cases isNumber : d.number (va 0) with
  | none => exact absurd (d.fits_of_number_none _ isNumber) tooLong
  | some conversion =>
      have fails := (d.number_returnsIff _ isNumber).2 tooLong
      simp only [fails]
      rfl

/-! ## The whole format -/

theorem length_next (src : List Byte) : (next src).2.length ≤ src.length := by
  cases src with
  | nil => exact le_rfl
  | cons ch src => exact Nat.le_succ _

theorem length_a2i (base : Int) (ch : Byte) (src : List Byte)
    (num : BitVec 32) : (a2i base ch src num).2.1.length ≤ src.length := by
  induction src generalizing ch num with
  | nil =>
      rw [a2i]
      split_ifs
      · exact le_rfl
      · exact le_rfl
  | cons following src induction =>
      rw [a2i]
      split_ifs
      · exact (induction following _).trans (Nat.le_succ _)
      · exact le_rfl

/-- A directive does not give characters back. -/
theorem length_directive (fmt : List Byte) :
    (directive fmt).2.length ≤ fmt.length := by
  have skip (test : Prop) [Decidable test] (ch : Byte) (src : List Byte) :
      (if test then next src else (ch, src)).2.length ≤ src.length := by
    split_ifs
    · exact length_next src
    · exact le_rfl
  have number (ch : Byte) (src : List Byte) :
      (if 0x30 ≤ ch ∧ ch ≤ 0x39 then a2i 10 ch src 0
        else (ch, src, 0)).2.1.length ≤ src.length := by
    split_ifs
    · exact length_a2i 10 ch src 0
    · exact le_rfl
  unfold directive
  exact (skip _ _ _).trans ((number _ _).trans
    ((skip _ _ _).trans (length_next fmt)))

theorem length_next_lt {src : List Byte} (more : (next src).1 ≠ 0) :
    (next src).2.length < src.length := by
  cases src with
  | nil => exact absurd rfl more
  | cons ch src => exact Nat.lt_succ_self _

/-- A loop over a format returns if and only if the numbers fit. -/
theorem formatLoop_returnsIff
    (strings : BitVec 64 → Text) (fuel : Nat) {fmt : List Byte}
    (enough : fmt.length < fuel) (va : VaList) (out : Text) :
    ReturnsIff (formatLoop strings fuel fmt va out)
      (∀ met ∈ directivesLoop fuel fmt va, met.1.Fits met.2) := by
  induction fuel generalizing fmt va out with
  | zero => exact absurd enough (Nat.not_lt_zero _)
  | succ fuel induction =>
      rw [formatLoop, directivesLoop]
      by_cases atEnd : (next fmt).1 = 0
      · simp only [if_pos atEnd]
        exact .of_returns ⟨out, rfl⟩ nofun
      · have shorter := length_next_lt atEnd
        by_cases literal : (next fmt).1 ≠ 0x25
        · simp only [if_neg atEnd, if_pos literal]
          exact induction (by omega) va _
        · have behind := length_directive (next fmt).2
          simp only [if_neg atEnd, if_neg literal]
          by_cases abort : (directive (next fmt).2).1.ch = 0
          · simp only [if_pos abort]
            exact .of_returns ⟨out, rfl⟩ nofun
          · simp only [if_neg abort, List.forall_mem_cons]
            by_cases fits : (directive (next fmt).2).1.Fits (va 0)
            · rcases Directive.execute_fits _ strings va fits with
                ⟨text, executed⟩
              have room : (directive (next fmt).2).2.length < fuel := by
                omega
              have later :=
                induction room ((directive (next fmt).2).1.rest va)
                  (out ++ text)
              simp only [executed]
              exact later.congr (and_iff_right fits)
            · have executed := Directive.execute_overrun _ strings va fits
              simp only [executed]
              exact ⟨fun all => absurd all.1 fits, fun _ => rfl⟩

/-! ## Numbers read back -/

/-- A digit is read as what was written. -/
theorem a2d_digitByte (uc : Bool) {digit : Nat} (inside : digit < 16) :
    a2d (digitByte uc (BitVec.ofNat 32 digit)) = digit := by
  interval_cases digit
  all_goals
    cases uc
    · rfl
    · rfl

theorem foldl_a2d
    (uc : Bool) (base : Nat) {digits : List Nat}
    (inside : ∀ digit ∈ digits, digit < 16) (before : Nat) :
    (digits.map fun digit => digitByte uc (BitVec.ofNat 32 digit)).foldl
        (fun (value : Int) ch => value * base + a2d ch) before =
      digits.foldl (fun value digit => value * base + digit) before := by
  induction digits generalizing before with
  | nil => rfl
  | cons digit digits induction =>
      rcases List.forall_mem_cons.1 inside with ⟨first, later⟩
      rw [List.map_cons, List.foldl_cons, List.foldl_cons,
        a2d_digitByte uc first, ← induction later]
      push_cast
      rfl

/-- The characters which a number is formatted as spell it, in every base the
formats use. -/
theorem numeral_reads_back
    (uc : Bool) {base : Nat} (two : 2 ≤ base) (hexadecimal : base ≤ 16)
    (num : Nat) :
    (numeral uc base num).foldl
        (fun (value : Int) ch => value * base + a2d ch) 0 =
      num := by
  have inside :
      ∀ digit ∈ digitsFrom base (Nat.log base num) num, digit < 16 :=
    fun digit member =>
      (digitsFrom_lt (by omega) (Nat.lt_pow_succ_log_self two num) digit
        member).trans_le hexadecimal
  have spelled := foldl_digitsFrom base (Nat.log base num) num 0
  rw [Nat.zero_mul, Nat.zero_add] at spelled
  rw [numeral]
  exact (foldl_a2d uc base inside 0).trans (congrArg Nat.cast spelled)

/-! ## Log lines -/

/-- The calls of the logger which may put a line. -/
inductive LogLine where
  | info (fmt : List Byte) (va : VaList)
  | debug (lvl : Level) (fmt : List Byte) (va : VaList)
  | generalProtection (rip : BitVec 64)

/-- What a log line prints. -/
def LogLine.print (strings : BitVec 64 → Text) :
    LogLine → Except Fault Text
  | .info fmt va => vinfo strings fmt va
  | .debug lvl fmt va => vdebug strings lvl fmt va
  | .generalProtection rip => Printf.generalProtection strings rip

/-- Every number of the format fits.  A line which the level of the module
suppresses has none. -/
def LogLine.Fits : LogLine → Prop
  | .info fmt va => ∀ met ∈ directives fmt va, met.1.Fits met.2
  | .debug lvl fmt va =>
      lvl = .debug → ∀ met ∈ directives fmt va, met.1.Fits met.2
  | .generalProtection rip => rip.toNat < 2 ^ 44

/-- A format returns exactly if every number in it fits. -/
theorem tfpFormat_returnsIff
    (strings : BitVec 64 → Text) (fmt : List Byte) (va : VaList) :
    ReturnsIff (tfpFormat strings fmt va)
      (∀ met ∈ directives fmt va, met.1.Fits met.2) :=
  formatLoop_returnsIff strings _ (Nat.lt_succ_self _) va []

theorem directives_generalProtection (rip : BitVec 64) :
    directives (chars "#GP: RIP %lx\n") (fun _ => rip) =
      [({ lz := false, w := 0, lng := true, ch := 0x78 }, rip)] := rfl

/-- And so does a log line. -/
theorem LogLine.print_returnsIff
    (strings : BitVec 64 → Text) (line : LogLine) :
    ReturnsIff (line.print strings) line.Fits := by
  cases line with
  | info fmt va => exact tfpFormat_returnsIff strings fmt va
  | debug lvl fmt va =>
      by_cases suppressed : lvl ≠ .debug
      · have silent : vdebug strings lvl fmt va = .ok [] :=
          if_pos suppressed
        exact .of_returns ⟨[], silent⟩
          (fun shown => absurd shown suppressed)
      · have shown : lvl = .debug := not_not.mp suppressed
        have formats :
            vdebug strings lvl fmt va = tfpFormat strings fmt va :=
          if_neg suppressed
        have returns := tfpFormat_returnsIff strings fmt va
        rw [← formats] at returns
        exact returns.congr (forall_prop_of_true shown)
  | generalProtection rip =>
      have returns :=
        tfpFormat_returnsIff strings (chars "#GP: RIP %lx\n") fun _ => rip
      have fits :
          LogLine.Fits (.generalProtection rip) ↔
            ∀ met ∈ directives (chars "#GP: RIP %lx\n") fun _ => rip,
              met.1.Fits met.2 := by
        rw [directives_generalProtection]
        simp [LogLine.Fits, Directive.Fits]
      exact returns.congr fits

/-- A log line is formatted within the buffer if and only if its long numbers
have at most eleven characters. -/
theorem log_line_formatted_iff
    (strings : BitVec 64 → Text) (line : LogLine) :
    (∃ text, line.print strings = .ok text) ↔ line.Fits := by
  have returnsIff := line.print_returnsIff strings
  constructor
  · rintro ⟨text, returns⟩
    by_contra tooLong
    rw [returnsIff.2 tooLong] at returns
    cases returns
  · exact returnsIff.1

/-- The message for an instruction in the upper half of the address space does
not fit, nor does the line for the first page behind 16 TiB. -/
theorem general_protection_overruns :
    generalProtection (fun _ => []) 0xffffffff80000000 = .error .overrun ∧
      vinfo (fun _ => []) (chars "addr %lx\n") (fun _ => 0x100000000000) =
        .error .overrun :=
  ⟨rfl, rfl⟩

end NopOS.Console.Printf
