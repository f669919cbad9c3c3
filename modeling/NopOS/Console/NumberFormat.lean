import Mathlib.Tactic
import Mathlib.Data.Nat.Log

/-!
# Numbers in the scratch buffer

`uli2a`, `ui2a`, `li2a` and `i2a` of `printf.c` store the digits of a number
one by one into the buffer of `tfp_format`, which has 12 bytes.  None of them
is told so.  Here a store behind the buffer is a fault.
-/

namespace NopOS.Console.NumberFormat

/-- A character. -/
abbrev Byte := BitVec 8

/-- A byte behind the scratch buffer, or a loop that does not end. -/
inductive Fault where
  | overrun
  | outOfFuel
deriving DecidableEq

/-- `char bf[12]`, as the bytes which were stored so far. -/
abbrev Scratch := List Byte

/-- The size of `bf`. -/
def scratchSize : Nat := 12

/-- `*bf++ = byte`. -/
def store (bf : Scratch) (byte : Byte) : Except Fault Scratch :=
  if bf.length < scratchSize then .ok (bf ++ [byte]) else .error .overrun

/-! ## The conversions -/

section Width

variable {width : Nat}

/-- `while (num/d >= base) d*=base;` -/
def divisorLoop (num base : BitVec width) :
    Nat → BitVec width → Except Fault (BitVec width)
  | 0, _ => .error .outOfFuel
  | fuel + 1, d =>
      if base ≤ num / d then divisorLoop num base fuel (d * base) else .ok d

/-- `dgt+(dgt<10 ? '0' : (uc ? 'A' : 'a')-10)` as a `char`. -/
def digitByte (uc : Bool) (dgt : BitVec 32) : Byte :=
  (dgt + if dgt.toInt < 10 then 48 else (if uc then 65 else 97) - 10).setWidth 8

/-- `while (d!=0)`. -/
def digitLoop (base : BitVec width) (uc : Bool) :
    Nat → BitVec width → BitVec width → Nat → Scratch → Except Fault Scratch
  | 0, _, _, _, _ => .error .outOfFuel
  | fuel + 1, num, d, n, bf =>
      if d = 0 then .ok bf
      else
        let dgt : BitVec 32 := (num / d).setWidth 32
        let num := num % d
        let d := d / base
        if n ≠ 0 ∨ 0 < dgt.toInt ∨ d = 0 then do
          let bf ← store bf (digitByte uc dgt)
          digitLoop base uc fuel num d (n + 1) bf
        else digitLoop base uc fuel num d n bf

/-- `uli2a` and `ui2a`, which differ in the width of the number. -/
def u2a (num base : BitVec width) (uc : Bool) (bf : Scratch) :
    Except Fault Scratch := do
  let d ← divisorLoop num base (width + 1) 1
  let bf ← digitLoop base uc (width + 1) num d 0 bf
  store bf 0

/-- `li2a` and `i2a`. -/
def s2a (num : BitVec width) (bf : Scratch) : Except Fault Scratch :=
  if num.toInt < 0 then do
    let bf ← store bf 45
    u2a (-num) 10 false bf
  else u2a num 10 false bf

end Width

/-- `uli2a`: 64 bits without a sign. -/
def uli2a (num base : BitVec 64) (uc : Bool) (bf : Scratch) :
    Except Fault Scratch := u2a num base uc bf

/-- `ui2a`: 32 bits without a sign. -/
def ui2a (num base : BitVec 32) (uc : Bool) (bf : Scratch) :
    Except Fault Scratch := u2a num base uc bf

/-- `li2a`: 64 bits with a sign. -/
def li2a (num : BitVec 64) (bf : Scratch) : Except Fault Scratch :=
  s2a num bf

/-- `i2a`: 32 bits with a sign. -/
def i2a (num : BitVec 32) (bf : Scratch) : Except Fault Scratch :=
  s2a num bf

/-! ## Stores in a row -/

/-- Bytes stored one after another. -/
def storeAll (bf : Scratch) (bytes : List Byte) : Except Fault Scratch :=
  bytes.foldlM store bf

/-- Bytes are stored as long as they fit. -/
theorem storeAll_eq
    {bf : Scratch} (fits : bf.length ≤ scratchSize) (bytes : List Byte) :
    storeAll bf bytes =
      if bf.length + bytes.length ≤ scratchSize then .ok (bf ++ bytes)
      else .error .overrun := by
  induction bytes generalizing bf with
  | nil => simp [storeAll, fits, pure, Except.pure]
  | cons byte bytes induction =>
      rw [storeAll, List.foldlM_cons, store]
      by_cases room : bf.length < scratchSize
      · have longer : (bf ++ [byte]).length ≤ scratchSize := by
          simpa using room
        have next := induction longer
        rw [if_pos room]
        show storeAll (bf ++ [byte]) bytes = _
        rw [next]
        simp [Nat.add_assoc, Nat.add_comm 1]
      · have tooLong : ¬ bf.length + (byte :: bytes).length ≤ scratchSize := by
          rw [List.length_cons]
          omega
        rw [if_neg room, if_neg tooLong]
        rfl

theorem storeAll_append (bf : Scratch) (first second : List Byte) :
    storeAll bf (first ++ second) =
      storeAll bf first >>= fun bf => storeAll bf second :=
  List.foldlM_append

/-! ## The divisor -/

section Digits

variable {width : Nat} {base : BitVec width}

/-- The divisor grows to the highest power of the base in the number. -/
theorem divisorLoop_eq
    (num : BitVec width) (two : 2 ≤ base.toNat) (fuel exponent : Nat)
    {d : BitVec width} (power : d.toNat = base.toNat ^ exponent)
    (below : exponent = 0 ∨ base.toNat ^ exponent ≤ num.toNat)
    (enough : width < exponent + fuel) :
    ∃ divisor,
      divisorLoop num base fuel d = .ok divisor ∧
        divisor.toNat = base.toNat ^ Nat.log base.toNat num.toNat := by
  have inWord := num.isLt
  induction fuel generalizing exponent d with
  | zero =>
      exfalso
      rcases below with zero | small
      · omega
      · have grows : 2 ^ exponent ≤ base.toNat ^ exponent :=
          Nat.pow_le_pow_left two exponent
        have longer : 2 ^ width ≤ 2 ^ exponent :=
          Nat.pow_le_pow_right (by decide) (by omega)
        omega
  | succ fuel induction =>
      have positive : 0 < base.toNat ^ exponent := by positivity
      have goesOn :
          base ≤ num / d ↔ base.toNat ^ (exponent + 1) ≤ num.toNat := by
        rw [BitVec.le_def, BitVec.toNat_udiv, power,
          Nat.le_div_iff_mul_le positive, Nat.pow_succ']
      rw [divisorLoop]
      by_cases more : base ≤ num / d
      · have fitsNext := goesOn.mp more
        have next : (d * base).toNat = base.toNat ^ (exponent + 1) := by
          rw [BitVec.toNat_mul, power, ← Nat.pow_succ]
          exact Nat.mod_eq_of_lt (lt_of_le_of_lt fitsNext inWord)
        rw [if_pos more]
        exact induction (exponent + 1) next (Or.inr fitsNext) (by omega)
      · have highest := not_le.mp (mt goesOn.mpr more)
        rw [if_neg more]
        refine ⟨d, rfl, ?_⟩
        rw [power]
        congr 1
        rcases below with rfl | small
        · exact (Nat.log_of_lt (by simpa using highest)).symm
        · exact (Nat.log_eq_of_pow_le_of_lt_pow small highest).symm

/-- The digits of a number from a power of the base down. -/
def digitsFrom (base : Nat) : Nat → Nat → List Nat
  | 0, num => [num]
  | exponent + 1, num =>
      num / base ^ (exponent + 1) ::
        digitsFrom base exponent (num % base ^ (exponent + 1))

@[simp]
theorem length_digitsFrom (base exponent num : Nat) :
    (digitsFrom base exponent num).length = exponent + 1 := by
  induction exponent generalizing num with
  | zero => rfl
  | succ exponent induction => rw [digitsFrom, List.length_cons, induction]

theorem digitsFrom_lt
    {base exponent num : Nat} (positive : 0 < base)
    (inside : num < base ^ (exponent + 1)) :
    ∀ digit ∈ digitsFrom base exponent num, digit < base := by
  induction exponent generalizing num with
  | zero => simpa [digitsFrom] using inside
  | succ exponent induction =>
      have powerPositive : 0 < base ^ (exponent + 1) := Nat.pow_pos positive
      rw [digitsFrom, List.forall_mem_cons]
      constructor
      · rw [Nat.div_lt_iff_lt_mul powerPositive, ← Nat.pow_succ']
        exact inside
      · exact induction (Nat.mod_lt _ powerPositive)

/-- The digits spell the number. -/
theorem foldl_digitsFrom (base exponent num before : Nat) :
    (digitsFrom base exponent num).foldl
        (fun value digit => value * base + digit) before =
      before * base ^ (exponent + 1) + num := by
  induction exponent generalizing num before with
  | zero => simp [digitsFrom]
  | succ exponent induction =>
      have parts := Nat.div_add_mod' num (base ^ (exponent + 1))
      rw [digitsFrom, List.foldl_cons, induction, Nat.pow_succ base (exponent + 1)]
      rw [Nat.add_mul, Nat.add_assoc, parts]
      ring

/-! ## The digits -/

/-- A turn of the loop stores the digit at its power of the base, unless this
is the first digit and zero. -/
theorem digitLoop_succ
    (uc : Bool) (small : base.toNat < 2 ^ 31) (fuel exponent : Nat)
    {num d : BitVec width} (power : d.toNat = base.toNat ^ exponent)
    (positive : 0 < base.toNat)
    (inside : num.toNat < base.toNat ^ (exponent + 1)) {n : Nat}
    (first :
      n ≠ 0 ∨ d / base = 0 ∨ base.toNat ^ exponent ≤ num.toNat)
    (bf : Scratch) :
    digitLoop base uc (fuel + 1) num d n bf =
      store bf
          (digitByte uc
            (BitVec.ofNat 32 (num.toNat / base.toNat ^ exponent))) >>=
        fun bf => digitLoop base uc fuel (num % d) (d / base) (n + 1) bf := by
  have powerPositive : 0 < base.toNat ^ exponent := Nat.pow_pos positive
  have running : d ≠ 0 := by
    rintro rfl
    rw [← power] at powerPositive
    simp at powerPositive
  have digit :
      (num / d).setWidth 32 =
        BitVec.ofNat 32 (num.toNat / base.toNat ^ exponent) := by
    apply BitVec.eq_of_toNat_eq
    rw [BitVec.toNat_setWidth, BitVec.toNat_udiv, BitVec.toNat_ofNat, power]
  have belowBase : num.toNat / base.toNat ^ exponent < base.toNat := by
    rw [Nat.div_lt_iff_lt_mul powerPositive, ← Nat.pow_succ']
    exact inside
  have stores :
      n ≠ 0 ∨ 0 < ((num / d).setWidth 32).toInt ∨ d / base = 0 := by
    rcases first with later | last | nonzero
    · exact Or.inl later
    · exact Or.inr (Or.inr last)
    · have atLeastOne : 1 ≤ num.toNat / base.toNat ^ exponent :=
        (Nat.le_div_iff_mul_le powerPositive).mpr (by simpa using nonzero)
      have value :
          (BitVec.ofNat 32 (num.toNat / base.toNat ^ exponent)).toNat =
            num.toNat / base.toNat ^ exponent := by
        rw [BitVec.toNat_ofNat]
        exact Nat.mod_eq_of_lt (by omega)
      refine Or.inr (Or.inl ?_)
      rw [digit, BitVec.toInt_eq_toNat_of_lt (by omega), value]
      omega
  rw [digit] at stores
  rw [digitLoop, if_neg running]
  simp only [digit, if_pos stores]

theorem digitLoop_zero
    (uc : Bool) (fuel : Nat) (num : BitVec width) (n : Nat) (bf : Scratch) :
    digitLoop base uc (fuel + 1) num 0 n bf = .ok bf := by
  rw [digitLoop, if_pos rfl]

/-- From a power of the base the digits of the number are stored, unless the
first one is skipped. -/
theorem digitLoop_eq
    (uc : Bool) (two : 2 ≤ base.toNat) (small : base.toNat < 2 ^ 31)
    (fuel exponent : Nat) {num d : BitVec width}
    (power : d.toNat = base.toNat ^ exponent)
    (inside : num.toNat < base.toNat ^ (exponent + 1)) {n : Nat}
    (first : n ≠ 0 ∨ exponent = 0 ∨ base.toNat ^ exponent ≤ num.toNat)
    (enough : exponent + 2 ≤ fuel) (bf : Scratch) :
    digitLoop base uc fuel num d n bf =
      storeAll bf
        ((digitsFrom base.toNat exponent num.toNat).map fun digit =>
          digitByte uc (BitVec.ofNat 32 digit)) := by
  have positive : 0 < base.toNat := by omega
  rcases Nat.exists_eq_add_of_le' enough with ⟨spare, rfl⟩
  clear enough
  induction exponent generalizing num d n bf with
  | zero =>
      have last : d / base = 0 := by
        apply BitVec.eq_of_toNat_eq
        rw [BitVec.toNat_udiv, power, Nat.pow_zero]
        exact Nat.div_eq_of_lt two
      rw [digitLoop_succ uc small _ 0 power positive inside (Or.inr (Or.inl last)),
        last]
      simp only [digitLoop_zero, Nat.pow_zero, Nat.div_one]
      rfl
  | succ exponent induction =>
      have divisor : (d / base).toNat = base.toNat ^ exponent := by
        rw [BitVec.toNat_udiv, power, Nat.pow_succ]
        exact Nat.mul_div_cancel _ positive
      have rest : (num % d).toNat = num.toNat % base.toNat ^ (exponent + 1) := by
        rw [BitVec.toNat_umod, power]
      have restInside : (num % d).toNat < base.toNat ^ (exponent + 1) := by
        rw [rest]
        exact Nat.mod_lt _ (Nat.pow_pos positive)
      have stores :
          n ≠ 0 ∨ d / base = 0 ∨
            base.toNat ^ (exponent + 1) ≤ num.toNat := by
        rcases first with later | ⟨⟨⟩⟩ | nonzero
        · exact Or.inl later
        · exact Or.inr (Or.inr nonzero)
      have later (bf : Scratch) :=
        induction divisor restInside (Or.inl (Nat.succ_ne_zero n)) bf
      have oneMore : spare + (exponent + 1 + 2) = spare + (exponent + 2) + 1 :=
        rfl
      rw [oneMore, digitLoop_succ uc small _ (exponent + 1) power positive
        inside stores]
      simp only [later, rest]
      rfl

/-! ## Whole numbers -/

/-- The characters of a number. -/
def numeral (uc : Bool) (base num : Nat) : List Byte :=
  (digitsFrom base (Nat.log base num) num).map fun digit =>
    digitByte uc (BitVec.ofNat 32 digit)

@[simp]
theorem length_numeral (uc : Bool) (base num : Nat) :
    (numeral uc base num).length = Nat.log base num + 1 := by
  rw [numeral, List.length_map, length_digitsFrom]

/-- The conversion ends, and stores the characters and a `NUL`. -/
theorem u2a_eq
    (num : BitVec width) (two : 2 ≤ base.toNat) (small : base.toNat < 2 ^ 31)
    (uc : Bool) (bf : Scratch) :
    u2a num base uc bf =
      storeAll bf (numeral uc base.toNat num.toNat ++ [0]) := by
  have wide : width ≠ 0 := by
    rintro rfl
    have bound := base.isLt
    omega
  have inWord : num.toNat < base.toNat ^ width :=
    lt_of_lt_of_le num.isLt (Nat.pow_le_pow_left two width)
  have exponentBound : Nat.log base.toNat num.toNat < width :=
    Nat.log_lt_of_lt_pow' wide inWord
  have one : (1 : BitVec width).toNat = base.toNat ^ 0 :=
    BitVec.toNat_one (Nat.pos_of_ne_zero wide)
  rcases divisorLoop_eq num two (width + 1) 0 one (Or.inl rfl) (by omega) with
    ⟨divisor, found, power⟩
  have first :
      0 ≠ 0 ∨ Nat.log base.toNat num.toNat = 0 ∨
        base.toNat ^ Nat.log base.toNat num.toNat ≤ num.toNat := by
    by_cases zero : num.toNat = 0
    · rw [zero]
      exact Or.inr (Or.inl (Nat.log_zero_right _))
    · exact Or.inr (Or.inr (Nat.pow_log_le_self _ zero))
  have digits :=
    digitLoop_eq uc two small (width + 1) _ power
      (Nat.lt_pow_succ_log_self two num.toNat) first (by omega) bf
  rw [u2a, found]
  show (digitLoop base uc (width + 1) num divisor 0 bf >>= fun bf =>
    store bf 0) = _
  rw [digits, storeAll_append, numeral]
  congr 1
  funext bf
  exact (bind_pure (store bf 0)).symm

end Digits

example : ui2a 0xbeef 16 false [] = .ok [0x62, 0x65, 0x65, 0x66, 0] := by
  decide

/-! ## What fits -/

section Fits

variable {width : Nat}

theorem log_lt_iff {base num exponent : Nat} (two : 2 ≤ base)
    (nonzero : exponent ≠ 0) :
    Nat.log base num < exponent ↔ num < base ^ exponent := by
  constructor
  · exact Nat.lt_pow_of_log_lt two
  · exact Nat.log_lt_of_lt_pow' nonzero

/-- Eleven digits and a `NUL` fill the buffer. -/
theorem u2a_nil
    {base : BitVec width} (num : BitVec width) (two : 2 ≤ base.toNat)
    (small : base.toNat < 2 ^ 31) (uc : Bool) :
    u2a num base uc [] =
      if num.toNat < base.toNat ^ 11 then
        .ok (numeral uc base.toNat num.toNat ++ [0])
      else .error .overrun := by
  have empty : ([] : Scratch).length ≤ scratchSize := Nat.zero_le _
  have fits :
      ([] : Scratch).length +
            (numeral uc base.toNat num.toNat ++ [0]).length ≤ scratchSize ↔
        num.toNat < base.toNat ^ 11 := by
    rw [← log_lt_iff two (by decide), List.length_append, length_numeral]
    simp only [List.length_nil, List.length_singleton, scratchSize]
    omega
  rw [u2a_eq num two small, storeAll_eq empty]
  exact if_congr fits rfl rfl

/-- The sign takes the place of a digit. -/
theorem s2a_nil (num : BitVec width) (wide : 5 ≤ width) :
    s2a num [] =
      if num.toInt < 0 then
        if num.toInt.natAbs < 10 ^ 10 then
          .ok (45 :: numeral false 10 num.toInt.natAbs ++ [0])
        else .error .overrun
      else if num.toInt.natAbs < 10 ^ 11 then
        .ok (numeral false 10 num.toInt.natAbs ++ [0])
      else .error .overrun := by
  have room : 2 ^ 5 ≤ 2 ^ width := Nat.pow_le_pow_right (by decide) wide
  have ten : (10 : BitVec width).toNat = 10 := by
    show 10 % 2 ^ width = 10
    exact Nat.mod_eq_of_lt (by omega)
  have two : 2 ≤ (10 : BitVec width).toNat := by omega
  have small : (10 : BitVec width).toNat < 2 ^ 31 := by omega
  have bound := num.isLt
  rw [s2a]
  by_cases negative : num.toInt < 0
  · have value : (-num).toNat = num.toInt.natAbs := by
      rw [BitVec.toInt_neg_iff] at negative
      rw [BitVec.toNat_neg, BitVec.toInt_eq_toNat_cond,
        Nat.mod_eq_of_lt (by omega), if_neg (by omega)]
      omega
    have sign : ([45] : Scratch).length ≤ scratchSize := by decide
    have fits :
        ([45] : Scratch).length +
              (numeral false 10 num.toInt.natAbs ++ [0]).length ≤ scratchSize ↔
          num.toInt.natAbs < 10 ^ 10 := by
      rw [← log_lt_iff (by decide) (by decide), List.length_append,
        length_numeral]
      simp only [List.length_singleton, scratchSize]
      omega
    rw [if_pos negative, if_pos negative]
    show u2a (-num) 10 false [45] = _
    rw [u2a_eq _ two small, value, ten, storeAll_eq sign]
    exact if_congr fits rfl rfl
  · have value : num.toNat = num.toInt.natAbs := by
      rw [not_lt, BitVec.toInt_pos_iff] at negative
      rw [BitVec.toInt_eq_toNat_cond, if_pos negative]
      rfl
    rw [if_neg negative, if_neg negative, u2a_nil _ two small, value, ten]

end Fits

end NopOS.Console.NumberFormat
