import NopOS.Lz.CompressedBlocks

/-!
# Runs of the compressor

The invariant of the main loop: the output is made of whole tokens, a control
byte which counts as full, and the literals behind it.  The size of the output
never passes the position in the input by more than one byte in 32.
-/

namespace NopOS.Lz.CompressorRuns

open NopOS.Lib.IndexedBuffer
open NopOS.Lib.Lz77
open NopOS.Lz.Decompress
open NopOS.Lz.TokenFormat
open NopOS.Lz.Compress
open NopOS.Lz.CompressedBlocks

/-- The bytes of output which an input of a length can take. -/
def outputSize (length : Nat) : Nat := length + length / 32 + 1

/-- The output holds the bytes of tokens, and other bytes behind them. -/
structure Output
    (level : Level) (input before : Memory) (length op : Nat)
    (output : Memory) (tokens : List (Token Byte)) (position : Nat)
    (rest : List Byte) : Prop where
  made : Extends level input 0 position tokens
  first : ∀ token ∈ tokens.head?, ∃ items, token = .literals items
  held : Holds output 0 (encodeAll level tokens ++ rest)
  op : op = (encodeAll level tokens).length + rest.length
  untouched : ∀ place, outputSize length ≤ place → output place = before place

/-- The state at the head of the main loop. -/
structure Unfinished
    (level : Level) (input before : Memory) (length : Nat)
    (state : Compressor) (tokens : List (Token Byte)) (done : Nat) :
    Prop where
  written :
    Output level input before length state.op state.output tokens done
      (byte 31 :: slice input done state.copy)
  ip : state.ip = done + state.copy
  few : state.copy < 32
  starts : tokens = [] → 0 < state.copy
  size : (encodeAll level tokens).length ≤ done + done / 32
  table : ∀ hval, state.htab hval ≤ state.ip

variable {level : Level} {input before output : Memory}
  {length op done position : Nat} {state : Compressor}
  {tokens : List (Token Byte)} {rest : List Byte}

section Output

theorem encodeAll_append (level : Level) (first second : List (Token Byte)) :
    encodeAll level (first ++ second) =
      encodeAll level first ++ encodeAll level second :=
  List.flatMap_append

theorem encodeAll_singleton (level : Level) (token : Token Byte) :
    encodeAll level [token] = encode level token :=
  List.flatMap_singleton _ _

theorem encodeAll_literals (level : Level) (start count : Nat) :
    encodeAll level [.literals (slice input start count)] =
      byte (count - 1) :: slice input start count := by
  rw [encodeAll_singleton, encode, length_slice]

theorem Output.putAll
    {state : Compressor}
    (made :
      Output level input before length state.op state.output tokens position
        rest)
    (bytes : List Byte)
    (room : state.op + bytes.length ≤ outputSize length) :
    Output level input before length (putAll bytes state).op
      (putAll bytes state).output tokens position (rest ++ bytes) := by
  rcases made with ⟨made, first, held, op, untouched⟩
  constructor
  · exact made
  · exact first
  · rw [← List.append_assoc]
    apply holds_putAll bytes held
    rw [op, List.length_append]
  · rw [putAll_op, op, List.length_append]
    omega
  · intro place beyond
    rw [putAll_before (by omega)]
    exact untouched place beyond

/-- The bytes behind the tokens are those of further tokens. -/
theorem Output.extend
    {more : List (Token Byte)} {last : Nat}
    (made :
      Output level input before length op output tokens position
        (encodeAll level more ++ rest))
    (extended : Extends level input position last more)
    (starts :
      tokens = [] → ∀ token ∈ more.head?, ∃ items, token = .literals items) :
    Output level input before length op output (tokens ++ more) last
      rest := by
  rcases made with ⟨made, first, held, op, untouched⟩
  constructor
  · exact made.append extended
  · cases tokens with
    | nil => exact starts rfl
    | cons token tokens => exact first
  · rwa [encodeAll_append, List.append_assoc]
  · rw [op, encodeAll_append, List.length_append, List.length_append,
      Nat.add_assoc]
  · exact untouched

theorem holds_update
    {buffer : Memory} {front back : List Byte} {old : Byte}
    (held : Holds buffer 0 (front ++ old :: back))
    (value : Byte) :
    Holds (Function.update buffer front.length value) 0
      (front ++ value :: back) := by
  rw [holds_append, holds_cons] at held ⊢
  rcases held with ⟨low, -, high⟩
  refine ⟨?_, ?_, ?_⟩
  · refine (holds_congr ?_).mp low
    intro i inside
    rw [Function.update_of_ne (by omega)]
  · rw [Nat.zero_add, Function.update_self]
  · refine (holds_congr ?_).mp high
    intro i inside
    rw [Function.update_of_ne (by omega)]

end Output

/-! ## Literals -/

theorem Unfinished.op_eq
    (unfinished :
      Unfinished level input before length state tokens done) :
    state.op = (encodeAll level tokens).length + (state.copy + 1) := by
  rw [unfinished.written.op, List.length_cons, length_slice]

/-- A new control byte behind whole tokens. -/
theorem Output.unfinished
    (state : Compressor)
    (made :
      Output level input before length state.op state.output tokens state.ip
        [])
    (copy : state.copy = 0)
    (some : tokens ≠ [])
    (size : (encodeAll level tokens).length ≤ state.ip + state.ip / 32)
    (table : ∀ hval, state.htab hval ≤ state.ip)
    (inside : state.ip ≤ length) :
    Unfinished level input before length (put state (byte 31)) tokens
      state.ip := by
  have bound : outputSize length = length + length / 32 + 1 := rfl
  have op := made.op
  rw [List.length_nil] at op
  have opened :=
    made.putAll [byte 31] (by rw [List.length_singleton]; omega)
  have kept : (put state (byte 31)).copy = 0 := copy
  constructor
  · rw [kept]
    exact opened
  · rw [kept]
    rfl
  · rw [kept]
    decide
  · intro empty
    exact absurd empty some
  · exact size
  · exact table

/-- The next byte of the input becomes a literal. -/
theorem Unfinished.putLiteral
    (unfinished : Unfinished level input before length state tokens done)
    (inside : state.ip < length) :
    ∃ tokens done,
      Unfinished level input before length (putLiteral input state) tokens
        done := by
  have op := unfinished.op_eq
  rcases unfinished with ⟨written, ip, few, starts, size, table⟩
  have bound : outputSize length = length + length / 32 + 1 := rfl
  have next :=
    written.putAll [input state.ip]
      (by rw [List.length_singleton]; omega)
  have longer :
      byte 31 :: slice input done state.copy ++ [input state.ip] =
        byte 31 :: slice input done (state.copy + 1) := by
    rw [List.cons_append, slice_succ_last, ip]
  rw [longer] at next
  by_cases full : state.copy + 1 = 32
  · rw [full] at next
    have closed :
        Output level input before length (put state (input state.ip)).op
          (put state (input state.ip)).output
          (tokens ++ [.literals (slice input done 32)]) (done + 32) [] := by
      apply Output.extend
      · rw [encodeAll_literals, List.append_nil]
        exact next
      · exact extends_literals (by decide) (by decide)
      · intro none token member
        rw [List.head?_singleton, Option.mem_some_iff] at member
        exact ⟨_, member.symm⟩
    refine ⟨tokens ++ [.literals (slice input done 32)], done + 32, ?_⟩
    have filled : (put state (input state.ip)).copy + 1 = maxCopy := full
    have atEnd : state.ip + 1 = done + 32 := by omega
    rw [← atEnd] at closed ⊢
    rw [Compress.putLiteral]
    simp only [filled, if_true]
    apply Output.unfinished
      { put state (input state.ip) with ip := state.ip + 1, copy := 0 }
      closed rfl
    · exact List.append_ne_nil_of_right_ne_nil _ (by simp)
    · rw [encodeAll_append, encodeAll_literals, List.length_append,
        List.length_cons, length_slice]
      simp only
      omega
    · intro hval
      exact Nat.le_succ_of_le (table hval)
    · exact inside
  · refine ⟨tokens, done, ?_⟩
    have notFull : ¬ (put state (input state.ip)).copy + 1 = maxCopy := full
    rw [Compress.putLiteral]
    simp only [if_neg notFull]
    constructor
    · exact next
    · change state.ip + 1 = done + (state.copy + 1)
      omega
    · change state.copy + 1 < 32
      omega
    · intro _
      exact Nat.succ_pos state.copy
    · exact size
    · intro hval
      exact Nat.le_succ_of_le (table hval)

/-- The literals before a match, or at the end, become a token. -/
theorem Unfinished.closeLiterals
    (unfinished : Unfinished level input before length state tokens done)
    (inside : state.ip ≤ length) :
    ∃ tokens,
      tokens ≠ [] ∧
        (encodeAll level tokens).length ≤ state.ip + state.ip / 32 + 1 ∧
          Output level input before length (closeLiterals state).op
            (closeLiterals state).output tokens state.ip [] := by
  have op := unfinished.op_eq
  rcases unfinished with ⟨written, ip, few, starts, size, table⟩
  have bound : outputSize length = length + length / 32 + 1 := rfl
  by_cases none : state.copy = 0
  · refine ⟨tokens, ?_, by omega, ?_⟩
    · intro empty
      have some := starts empty
      omega
    · rw [none, slice] at written
      rcases written with ⟨made, first, held, -, untouched⟩
      have closed : Compress.closeLiterals state =
          { state with op := state.op - 1 } := by
        rw [Compress.closeLiterals, if_neg (not_not.mpr none)]
      rw [closed]
      constructor
      · rwa [ip, none]
      · exact first
      · rw [List.append_nil]
        exact (holds_append.mp held).1
      · rw [List.length_nil, op, none]
        rfl
      · exact untouched
  · refine ⟨tokens ++ [.literals (slice input done state.copy)], ?_, ?_, ?_⟩
    · exact List.append_ne_nil_of_right_ne_nil _ (by simp)
    · rw [encodeAll_append, encodeAll_literals, List.length_append,
        List.length_cons, length_slice]
      omega
    · have place :
          state.op - state.copy - 1 = (encodeAll level tokens).length := by
        omega
      rcases written with ⟨made, first, held, counted, untouched⟩
      rw [Compress.closeLiterals, if_pos none, place, ip]
      apply Output.extend
      · rw [encodeAll_literals, List.append_nil]
        constructor
        · exact made
        · exact first
        · exact holds_update held (byte (state.copy - 1))
        · exact counted
        · intro place beyond
          simp only
          rw [Function.update_of_ne (by omega)]
          exact untouched place beyond
      · exact extends_literals (by omega) (Nat.le_of_lt few)
      · intro none token member
        rw [List.head?_singleton, Option.mem_some_iff] at member
        exact ⟨_, member.symm⟩

theorem update_le
    {table : Nat → Nat} {value bound : Nat}
    (key : Nat)
    (below : ∀ hval, table hval ≤ bound)
    (low : value ≤ bound) :
    ∀ hval, Function.update table key value hval ≤ bound := by
  intro hval
  by_cases same : hval = key
  · rw [same, Function.update_self]
    exact low
  · rw [Function.update_of_ne same]
    exact below hval

@[simp]
theorem closeLiterals_htab (state : Compressor) :
    (closeLiterals state).htab = state.htab := by
  rw [closeLiterals]
  split
  · rfl
  · rfl

@[simp]
theorem putLiteral_ip (input : Memory) (state : Compressor) :
    (putLiteral input state).ip = state.ip + 1 := by
  rw [putLiteral]
  simp only
  split
  · rfl
  · rfl

/-! ## Matches -/

/-- The compared bytes are equal up to one byte before the end found. -/
theorem matchEnd_spec
    {anchor distance len : Nat}
    (inside : distance + 1 ≤ anchor)
    (room : anchor + 12 < length)
    (three : 3 ≤ len)
    (five : len ≤ 5)
    (short : distance = 0 → len = 3)
    (same :
      ∀ i < len, input (anchor + i) = input (anchor + i - (distance + 1))) :
    let last :=
      matchEnd input length distance (anchor - (distance + 1) + len)
        (anchor + len)
    anchor + len < last ∧ last ≤ length ∧
      ∀ i,
        anchor + i + 1 < last →
          input (anchor + i) = input (anchor + i - (distance + 1)) := by
  intro last
  have found : last =
      matchEnd input length distance (anchor - (distance + 1) + len)
        (anchor + len) := rfl
  by_cases run : distance = 0
  · have size := short run
    subst distance len
    rw [matchEnd, if_pos rfl] at found
    have previous : anchor + 3 - 1 = anchor - (0 + 1) + 3 := by omega
    rcases runEnd_bounds input (input (anchor + 3 - 1))
        (length - 2 - (anchor + 3)) (anchor - (0 + 1) + 3) (anchor + 3) with
      ⟨low, high, more⟩
    have longer := more (by rw [previous]) (by omega)
    rw [← found] at low high longer
    refine ⟨longer, by omega, ?_⟩
    intro i before
    by_cases early : i < 3
    · exact same i early
    · have item : ∀ j, anchor + 3 + j < last →
          input (anchor - (0 + 1) + 3 + j) = input (anchor + 3 - 1) := by
        intro j below
        rw [found] at below
        exact runEnd_same below
      have here := item (i - 3 + 1) (by omega)
      have there := item (i - 3) (by omega)
      have herePlace : anchor - (0 + 1) + 3 + (i - 3 + 1) = anchor + i := by
        omega
      have therePlace :
          anchor - (0 + 1) + 3 + (i - 3) = anchor + i - (0 + 1) := by
        omega
      rw [herePlace] at here
      rw [therePlace] at there
      rw [here, there]
  · rw [matchEnd, if_neg run] at found
    simp only at found
    have shift :
        ∀ i, anchor - (distance + 1) + len + i =
          anchor + (len + i) - (distance + 1) := by
      intro i
      omega
    rcases compareTimes_bounds input 8 (anchor - (distance + 1) + len)
        (anchor + len) with
      ⟨-, high, more⟩
    have longer := more (by decide)
    split at found
    · rw [← found] at high longer
      refine ⟨longer, by omega, ?_⟩
      intro i before
      by_cases early : i < len
      · exact same i early
      · have place : anchor + len + (i - len) = anchor + i := by omega
        rw [found] at before
        have equal :=
          @compareTimes_same _ _ _ _ (i - len) (by rw [place]; exact before)
        rw [shift, place] at equal
        have back : len + (i - len) = i := by omega
        rw [back] at equal
        exact equal.symm
    · next whole =>
      rcases compareTimes_whole (Bool.eq_false_of_not_eq_true whole) with
        ⟨eight, firstEqual⟩
      rw [eight] at found
      rcases compareTimes_bounds input (length - 2 - (anchor + len + 8))
          (anchor - (distance + 1) + len + 8) (anchor + len + 8) with
        ⟨least, most, -⟩
      rw [← found] at least most
      refine ⟨by omega, by omega, ?_⟩
      intro i before
      by_cases early : i < len
      · exact same i early
      · by_cases middle : i < len + 8
        · have equal := firstEqual (i - len) (by omega)
          have place : anchor + len + (i - len) = anchor + i := by omega
          have back : len + (i - len) = i := by omega
          rw [shift, place, back] at equal
          exact equal.symm
        · have place : anchor + len + 8 + (i - (len + 8)) = anchor + i := by
            omega
          have back :
              anchor - (distance + 1) + len + 8 + (i - (len + 8)) =
                anchor + i - (distance + 1) := by
            omega
          rw [found] at before
          have equal :=
            @compareTimes_same _ _ _ _ (i - (len + 8))
              (by rw [place]; exact before)
          rw [back, place] at equal
          exact equal.symm

/-- Where the comparison ends, the match is a reference. -/
theorem Matching.of_matchEnd
    {level : Level} {anchor distance len : Nat}
    (inside : distance + 1 ≤ anchor)
    (room : anchor + 12 < length)
    (three : 3 ≤ len)
    (five : len ≤ 5)
    (short : distance = 0 → len = 3)
    (far : 8191 ≤ distance → len = 5)
    (near : level = .one → distance < 8192)
    (reach : distance < 8191 + 65536)
    (same :
      ∀ i < len, input (anchor + i) = input (anchor + i - (distance + 1))) :
    let ip :=
      matchEnd input length distance (anchor - (distance + 1) + len)
        (anchor + len) - 3
    anchor ≤ ip ∧ ip + 3 ≤ length ∧
      Matching level input anchor distance (ip - anchor) := by
  intro ip
  rcases matchEnd_spec inside room three five short same with
    ⟨low, high, equal⟩
  refine ⟨by omega, by omega, ?_⟩
  constructor
  · exact inside
  · omega
  · exact near
  · exact reach
  · intro away
    have five := far away
    omega
  · intro i below
    exact equal i (by omega)

/-- A match becomes tokens, behind those of the literals before it. -/
theorem Unfinished.takeMatch
    (distance len : Nat)
    (unfinished : Unfinished level input before length state tokens done)
    (inside : distance + 1 ≤ state.ip)
    (room : state.ip + 12 < length)
    (three : 3 ≤ len)
    (five : len ≤ 5)
    (short : distance = 0 → len = 3)
    (far : 8191 ≤ distance → len = 5)
    (near : level = .one → distance < 8192)
    (reach : distance < 8191 + 65536)
    (same :
      ∀ i < len,
        input (state.ip + i) = input (state.ip + i - (distance + 1))) :
    let next :=
      Compress.takeMatch level input length
        (state.ip - (distance + 1) + len) (distance + 1) len state
    state.ip < next.ip ∧ next.ip ≤ length ∧
      ∃ tokens done,
        Unfinished level input before length next tokens done := by
  intro next
  have bound : outputSize length = length + length / 32 + 1 := rfl
  rcases Matching.of_matchEnd inside room three five short far near reach
      same with
    ⟨low, high, matching⟩
  rcases unfinished.closeLiterals (by omega) with
    ⟨tokens, some, counted, closed⟩
  have size := matching.size
  have table := unfinished.table
  have op := closed.op
  have made : next =
      Compress.takeMatch level input length
        (state.ip - (distance + 1) + len) (distance + 1) len state := rfl
  rw [Compress.takeMatch, Nat.add_sub_cancel] at made
  simp only [putMatch_eq] at made
  generalize
    matchEnd input length distance (state.ip - (distance + 1) + len)
      (state.ip + len) - 3 = ip at low high matching size made
  rw [List.length_nil, Nat.add_zero] at op
  have filled :=
    @Output.putAll _ _ _ _ _ _ _ { Compress.closeLiterals state with copy := 0 }
      closed (encodeAll level (references level distance (ip - state.ip)))
      (by simp only; omega)
  have kept :
      ∀ hval,
        (putAll (encodeAll level (references level distance (ip - state.ip)))
          { Compress.closeLiterals state with copy := 0 }).htab hval ≤
            state.ip := by
    intro hval
    simp only [putAll_htab, closeLiterals_htab]
    exact table hval
  have copied :
      (putAll (encodeAll level (references level distance (ip - state.ip)))
        { Compress.closeLiterals state with copy := 0 }).copy = 0 :=
    putAll_copy
  generalize
    putAll (encodeAll level (references level distance (ip - state.ip)))
      { Compress.closeLiterals state with copy := 0 } = matched
    at made filled kept copied
  have ends : state.ip + (ip - state.ip + 2) = ip + 2 := by omega
  have covered := matching.extends
  rw [ends] at covered
  have whole :
      Output level input before length matched.op matched.output
        (tokens ++ references level distance (ip - state.ip)) (ip + 2)
        [] := by
    apply Output.extend
    · rw [List.append_nil]
      exact filled
    · exact covered
    · intro empty
      exact absurd empty some
  have newTable :
      ∀ hval,
        Function.update
            (Function.update matched.htab (hashFunction input ip) ip)
            (hashFunction input (ip + 1)) (ip + 1) hval ≤
          ip + 2 := by
    apply update_le
    · apply update_le
      · intro hval
        exact Nat.le_trans (kept hval) (by omega)
      · exact Nat.le_add_right ip 2
    · exact Nat.le_succ (ip + 1)
  rw [made]
  refine ⟨?_, ?_, tokens ++ references level distance (ip - state.ip),
    ip + 2, ?_⟩
  · change state.ip < ip + 2
    omega
  · change ip + 2 ≤ length
    omega
  apply Output.unfinished { matched with ip := ip + 2, htab := _ } whole copied
  · intro empty
    exact absurd (List.append_eq_nil_iff.mp empty).1 some
  · rw [encodeAll_append, List.length_append]
    simp only
    omega
  · exact newTable
  · simp only
    omega

/-- The same, from the place which the match refers to. -/
theorem Unfinished.takeMatchAt
    (ref len : Nat)
    (unfinished : Unfinished level input before length state tokens done)
    (behind : ref < state.ip)
    (room : state.ip + 12 < length)
    (three : 3 ≤ len)
    (five : len ≤ 5)
    (short : state.ip - ref < 8191 → len = 3)
    (far : 8191 < state.ip - ref → len = 5)
    (near : level = .one → state.ip - ref < 8192)
    (reach : state.ip - ref < 8191 + 65536)
    (equal : ∀ i < len, input (ref + i) = input (state.ip + i)) :
    let next :=
      Compress.takeMatch level input length (ref + len) (state.ip - ref) len
        state
    state.ip < next.ip ∧ next.ip ≤ length ∧
      ∃ tokens done,
        Unfinished level input before length next tokens done := by
  have biased : state.ip - ref - 1 + 1 = state.ip - ref := by omega
  have place : state.ip - (state.ip - ref) = ref := by omega
  have taken :=
    unfinished.takeMatch (state.ip - ref - 1) len
      (by omega) room three five (fun none => short (by omega))
      (fun away => far (by omega)) (fun one => by have := near one; omega)
      (by omega)
      (by
        intro i low
        have back : state.ip + i - (state.ip - ref - 1 + 1) = ref + i := by
          omega
        rw [back]
        exact (equal i low).symm)
  simpa only [biased, place] using taken

/-! ## Turns of the main loop -/

theorem readU16_eq (input : Memory) (p : Nat) :
    readU16 input p = 256 * (input (p + 1)).toNat + (input p).toNat := by
  have sum :=
    Nat.two_pow_add_eq_or_of_lt (i := 8) (input p).isLt (input (p + 1)).toNat
  rw [readU16, Nat.or_comm, Nat.shiftLeft_eq, Nat.mul_comm]
  exact sum.symm

theorem readU16_injective
    {p q : Nat}
    (same : readU16 input p = readU16 input q) :
    input p = input q ∧ input (p + 1) = input (q + 1) := by
  have pLow := (input p).isLt
  have qLow := (input q).isLt
  rw [readU16_eq, readU16_eq] at same
  constructor
  · apply BitVec.eq_of_toNat_eq
    omega
  · apply BitVec.eq_of_toNat_eq
    omega

theorem Unfinished.withTable
    (unfinished : Unfinished level input before length state tokens done)
    {htab : Nat → Nat}
    (table : ∀ hval, htab hval ≤ state.ip) :
    Unfinished level input before length { state with htab } tokens done := by
  rcases unfinished with ⟨written, ip, few, starts, size, -⟩
  exact ⟨written, ip, few, starts, size, table⟩

/-- The first comparison of a turn finds a run of three bytes. -/
theorem same_of_run
    {anchor : Nat}
    (first : input anchor = input (anchor - 1))
    (second : readU16 input (anchor - 1) = readU16 input (anchor + 1))
    (positive : 0 < anchor) :
    ∀ i < 3, input (anchor - 1 + i) = input (anchor + i) := by
  have back : anchor - 1 + 1 = anchor := Nat.sub_add_cancel positive
  rcases readU16_injective second with ⟨one, two⟩
  rw [back] at two
  intro i low
  have cases : i = 0 ∨ i = 1 ∨ i = 2 := by omega
  rcases cases with rfl | rfl | rfl
  · exact first.symm
  · rw [back]
    exact first.trans one
  · have next : anchor - 1 + 2 = anchor + 1 := by omega
    rw [next, ← one, ← first]
    exact two

theorem distanceTo_eq
    {anchor ref : Nat}
    (below : ref ≤ anchor)
    (small : anchor < 2 ^ 32) :
    distanceTo anchor ref = anchor - ref :=
  sub32_of_le small below

/-- A literal moves on by one byte. -/
theorem Unfinished.literalTurn
    (unfinished : Unfinished level input before length state tokens done)
    (room : state.ip + 12 < length) :
    state.ip < (Compress.putLiteral input state).ip ∧
      (Compress.putLiteral input state).ip ≤ length ∧
        ∃ tokens done,
          Unfinished level input before length
            (Compress.putLiteral input state) tokens done := by
  rw [putLiteral_ip]
  refine ⟨Nat.lt_succ_self state.ip, ?_, unfinished.putLiteral ?_⟩
  · omega
  · omega

/-- A turn moves on and keeps what is written. -/
theorem Unfinished.turn
    (unfinished : Unfinished level input before length state tokens done)
    (room : state.ip + 12 < length)
    (small : length < 2 ^ 32)
    (positive : 0 < state.ip) :
    state.ip < (turn level input length state).ip ∧
      (turn level input length state).ip ≤ length ∧
        ∃ tokens done,
          Unfinished level input before length
            (turn level input length state) tokens done := by
  rw [Compress.turn]
  split
  · next run =>
    rcases run with ⟨-, first, second⟩
    have one : state.ip - (state.ip - 1) = 1 := by omega
    have taken :=
      unfinished.takeMatchAt (state.ip - 1) 3 (by omega) room
        (by decide) (by decide) (fun _ => rfl) (by omega) (by omega)
        (by omega) (same_of_run first second positive)
    rw [one] at taken
    exact taken
  · have below := unfinished.table (hashFunction input state.ip)
    have updated := unfinished.withTable
      (update_le (hashFunction input state.ip) unfinished.table
        (Nat.le_refl state.ip))
    simp only [distanceTo_eq below (by omega)]
    generalize state.htab (hashFunction input state.ip) = ref at *
    have literal := updated.literalTurn room
    split
    · exact literal
    · next matched =>
      rw [not_or, not_or] at matched
      rcases matched with ⟨some, close, three⟩
      rcases compareTimes_whole (Bool.eq_false_of_not_eq_true three) with
        ⟨-, equal⟩
      split
      · next far =>
        rcases far with ⟨rfl, away⟩
        split
        · exact literal
        · next two =>
          rcases compareTimes_whole (Bool.eq_false_of_not_eq_true two) with
            ⟨-, more⟩
          have reach : ¬ 73725 ≤ state.ip - ref := by
            intro long
            exact close (decide_eq_true long)
          have least : 8191 ≤ state.ip - ref := away
          apply updated.takeMatchAt ref 5
          · change ref < state.ip
            omega
          · exact room
          · decide
          · decide
          · change state.ip - ref < 8191 → _
            omega
          · intro _
            rfl
          · rintro ⟨⟩
          · change state.ip - ref < _
            omega
          · intro i low
            by_cases early : i < 3
            · exact equal i early
            · have later := more (i - 3) (by omega)
              have here : state.ip + 3 + (i - 3) = state.ip + i := by omega
              have there : ref + 3 + (i - 3) = ref + i := by omega
              rwa [here, there] at later
      · next notFar =>
        have reach : state.ip - ref < 8192 := by
          cases level with
          | one =>
              have bound : ¬ 8192 ≤ state.ip - ref := by
                intro long
                exact close (decide_eq_true long)
              omega
          | two =>
              have bound : ¬ 8191 ≤ state.ip - ref := by
                intro away
                exact notFar ⟨rfl, away⟩
              omega
        apply updated.takeMatchAt ref 3
        · change ref < state.ip
          omega
        · exact room
        · decide
        · decide
        · intro _
          rfl
        · change 8191 < state.ip - ref → _
          omega
        · intro _
          exact reach
        · change state.ip - ref < _
          omega
        · exact equal

/-! ## Whole runs -/

/-- The main loop ends within the input, by induction on the fuel. -/
theorem mainLoop_unfinished
    (fuel : Nat)
    (unfinished : Unfinished level input before length state tokens done)
    (inside : state.ip ≤ length)
    (positive : 0 < state.ip)
    (small : length < 2 ^ 32)
    (enough : length < state.ip + fuel) :
    ∃ last tokens done,
      mainLoop level input length fuel state = some last ∧
        last.ip ≤ length ∧
          Unfinished level input before length last tokens done := by
  induction fuel generalizing state tokens done with
  | zero => omega
  | succ fuel induction =>
      rw [mainLoop]
      split
      · next room =>
        rcases unfinished.turn room small positive with
          ⟨further, bounded, tokens, done, next⟩
        exact induction next bounded (by omega) (by omega)
      · exact ⟨state, tokens, done, rfl, inside, unfinished⟩

theorem putLiterals_unfinished
    (left : Nat)
    (unfinished : Unfinished level input before length state tokens done)
    (inside : state.ip + left = length) :
    ∃ tokens done,
      (putLiterals input left state).ip = length ∧
        Unfinished level input before length (putLiterals input left state)
          tokens done := by
  induction left generalizing state tokens done with
  | zero => exact ⟨tokens, done, inside, unfinished⟩
  | succ left induction =>
      rcases unfinished.putLiteral (by omega) with ⟨tokens, done, next⟩
      apply induction next
      rw [putLiteral_ip]
      omega

theorem begin_unfinished
    (long : 4 ≤ length) :
    Unfinished level input output length (begin input output) [] 0 := by
  have bound : outputSize length = length + length / 32 + 1 := rfl
  constructor
  · constructor
    · exact extends_nil
    · intro token impossible
      cases impossible
    · exact
        holds_putAll [byte 31, input 0, input 1] holds_nil rfl
    · rfl
    · intro place beyond
      have behind : 0 + 3 ≤ place := by omega
      exact
        @putAll_before [byte 31, input 0, input 1]
          { ip := 0, copy := 2, htab := fun _ => 0, op := 0, output } place
          (Or.inr behind)
  · rfl
  · exact (by decide : 2 < 32)
  · intro _
    exact (by decide : 0 < 2)
  · exact Nat.le_refl 0
  · intro hval
    exact Nat.zero_le 2

/-- What a compressor leaves: a block, in a bounded part of the buffer. -/
structure Compressed
    (level : Level) (input before : Memory) (length size : Nat)
    (output : Memory) (block : Block level (slice input 0 length)) :
    Prop where
  counted : size = block.bytes.length
  held : Holds output 0 block.bytes
  bound : size ≤ outputSize length
  untouched : ∀ place, outputSize length ≤ place → output place = before place

theorem holds_marked
    {bytes : List Byte}
    (held : Holds output 0 bytes)
    (some : bytes ≠ []) :
    Holds (marked level output) 0 (mark level bytes) := by
  cases bytes with
  | nil => exact absurd rfl some
  | cons head tail =>
      rw [holds_cons] at held
      rw [mark, holds_cons]
      cases level with
      | one =>
          have same : byte (head.toNat ||| levelIndex .one <<< 5) = head := by
            rw [levelIndex, Nat.zero_shiftLeft, Nat.or_zero, byte,
              BitVec.ofNat_toNat, BitVec.setWidth_eq]
          rw [same]
          exact held
      | two =>
          constructor
          · rw [marked, Function.update_self, held.1]
            rfl
          · refine (holds_congr ?_).mp held.2
            intro i inside
            rw [marked, Function.update_of_ne (by omega)]

theorem marked_beyond
    {place : Nat}
    (beyond : 0 < place) :
    marked level output place = output place := by
  cases level with
  | one => rfl
  | two => exact Function.update_of_ne (by omega) _ _

/-- The end of the function completes the block. -/
theorem finish_compressed
    (unfinished : Unfinished level input before length state tokens done)
    (inside : state.ip ≤ length) :
    ∃ block : Block level (slice input 0 length),
      Compressed level input before length (finish input length state).op
        (marked level (finish input length state).output) block := by
  have bound : outputSize length = length + length / 32 + 1 := rfl
  rcases putLiterals_unfinished (length - state.ip) unfinished
      (by omega) with
    ⟨tokens, done, atEnd, last⟩
  rcases last.closeLiterals (by omega) with ⟨tokens, some, size, closed⟩
  rw [atEnd] at size closed
  rcases closed with ⟨made, first, held, op, untouched⟩
  rw [List.append_nil] at held
  rw [List.length_nil, Nat.add_zero] at op
  cases tokens with
  | nil => exact absurd rfl some
  | cons token tokens =>
      rcases first token rfl with ⟨items, rfl⟩
      refine ⟨{
        items
        tokens
        encodable := made.encodable
        fit := made.fit
        expands := made.expands }, ?_⟩
      constructor
      · rw [finish, op, Block.bytes]
        exact (length_mark level _).symm
      · rw [Block.bytes]
        apply holds_marked held
        exact List.append_ne_nil_of_left_ne_nil (encode_ne_nil _ _) _
      · rw [finish, op]
        exact size
      · intro place beyond
        rw [marked_beyond (by omega)]
        exact untouched place beyond

/-- Short inputs are one literal, of the first level. -/
theorem short_compressed
    (input output : Memory)
    (short : length < 4)
    (some : length ≠ 0) :
    ∃ block : Block .one (slice input 0 length),
      Compressed .one input output length (length + 1)
        (putAll (byte (length - 1) :: slice input 0 length)
          { ip := 0, copy := 0, htab := fun _ => 0, op := 0, output }).output
        block := by
  have bound : outputSize length = length + length / 32 + 1 := rfl
  have made :
      Extends .one input 0 (0 + length) [.literals (slice input 0 length)] :=
    extends_literals (by omega) (by rw [maxCopy]; omega)
  rw [Nat.zero_add] at made
  refine ⟨{
    items := slice input 0 length
    tokens := []
    encodable := made.encodable
    fit := made.fit
    expands := made.expands }, ?_⟩
  have bytes :
      mark .one (encodeAll .one [.literals (slice input 0 length)]) =
        byte (length - 1) :: slice input 0 length := by
    rw [encodeAll_literals, mark_literals .one (by omega),
      TokenFormat.control, levelIndex, Nat.zero_mul, Nat.zero_add]
  constructor
  · rw [Block.bytes, bytes, List.length_cons, length_slice]
  · rw [Block.bytes, bytes]
    exact holds_putAll _ holds_nil rfl
  · omega
  · intro place beyond
    have behind :
        0 + (byte (length - 1) :: slice input 0 length).length ≤ place := by
      rw [List.length_cons, length_slice]
      omega
    exact putAll_before (Or.inr behind)

/-- Every run of a compressor ends with a block of the input. -/
theorem compressor_compressed
    (level : Level) (input output : Memory)
    {length : Nat}
    (some : length ≠ 0)
    (small : length < 2 ^ 32) :
    ∃ used size after,
      ∃ block : Block used (slice input 0 length),
        compressor level input length output = Option.some (size, after) ∧
          Compressed used input output length size after block := by
  rw [compressor]
  split
  · next short =>
    rcases short_compressed input output short some with ⟨block, made⟩
    exact ⟨.one, _, _, block, rfl, made⟩
  · next long =>
    have first :
        Unfinished level input output length (begin input output) [] 0 :=
      begin_unfinished (by omega)
    have start : (begin input output).ip = 2 := rfl
    rcases mainLoop_unfinished length first (by omega) (by omega)
        small (by omega) with
      ⟨last, tokens, done, looped, inside, unfinished⟩
    rcases finish_compressed unfinished inside with ⟨block, made⟩
    rw [looped]
    exact ⟨level, _, _, block, rfl, made⟩

end NopOS.Lz.CompressorRuns
