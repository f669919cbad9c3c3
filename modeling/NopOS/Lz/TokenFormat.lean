import NopOS.Lz.Decompress

/-!
# The bytes of a token, and what the decompressor does with them

A token begins with a control byte: below 32 it is one less than the number of
literal bytes which follow, above it holds the low part of a length and the
high part of a distance.  Where memory holds the bytes of a list of tokens,
each turn of the decompressor expands one token.
-/

namespace NopOS.Lz.TokenFormat

open NopOS.Lib.IndexedBuffer
open NopOS.Lib.Lz77
open NopOS.Lz.Decompress

/-- The low byte of a number. -/
def byte (value : Nat) : Byte := BitVec.ofNat 8 value

/-- A control byte. -/
def control (len high : Nat) : Byte := byte (len * 32 + high)

/-- A length as the second level writes it: bytes 255, then what is left. -/
def lengthCodes (len : Nat) : List Byte :=
  List.replicate (len / 255) (byte 255) ++ [byte (len % 255)]

/-- The bytes of a length that does not fit the control byte. -/
def moreLength (level : Level) (len : Nat) : List Byte :=
  if len < 7 then []
  else
    match level with
    | .one => [byte (len - 7)]
    | .two => lengthCodes (len - 7)

/-- `distance` is biased: 0 is the byte before. -/
def encodeNear (level : Level) (distance len : Nat) : List Byte :=
  control (min len 7) (distance / 256) ::
    (moreLength level len ++ [byte (distance % 256)])

/-- `distance` counts from the first that a near match cannot reach. -/
def encodeFar (distance len : Nat) : List Byte :=
  control (min len 7) 31 ::
    (moreLength .two len ++
      [byte 255, byte (distance / 256), byte (distance % 256)])

/-- The bytes of a token. -/
def encode (level : Level) : Token Byte → List Byte
  | .literals items => byte (items.length - 1) :: items
  | .reference distance count =>
      if level = .one ∨ distance - 1 < 8191 then
        encodeNear level (distance - 1) (count - 2)
      else encodeFar (distance - 1 - 8191) (count - 2)

/-- The bytes of a list of tokens. -/
def encodeAll (level : Level) (tokens : List (Token Byte)) : List Byte :=
  tokens.flatMap (encode level)

/-- The tokens which have an encoding. -/
def HasBytes (level : Level) : Token Byte → Prop
  | .literals items => items.length ≤ 32
  | .reference distance count =>
      2 < count ∧
        match level with
        | .one => distance ≤ 8192 ∧ count ≤ 264
        | .two => distance ≤ 8191 + 65536

/-! ## Control bytes -/

section Control

theorem toNat_byte {value : Nat} (fits : value < 256) :
    (byte value).toNat = value := by
  rw [byte, BitVec.toNat_ofNat]
  exact Nat.mod_eq_of_lt fits

variable {len high : Nat}

theorem toNat_control (few : len ≤ 7) (low : high < 32) :
    (control len high).toNat = len * 32 + high :=
  toNat_byte (by omega)

theorem control_len (few : len ≤ 7) (low : high < 32) :
    (control len high).toNat >>> 5 = len := by
  rw [toNat_control few low, Nat.shiftRight_eq_div_pow]
  omega

theorem control_high (few : len ≤ 7) (low : high < 32) :
    ((control len high).toNat &&& 31) <<< 8 = high * 256 := by
  have mask := Nat.and_two_pow_sub_one_eq_mod (len * 32 + high) 5
  rw [toNat_control few low, Nat.shiftLeft_eq]
  norm_num at mask
  rw [mask]
  omega

end Control

/-! ## Length codes -/

section Lengths

variable {memory : Memory} {place len fuel : Nat}

theorem readCodes_replicate
    {last : Nat}
    (final : last < 255)
    {count : Nat}
    (held :
      Holds memory place (List.replicate count (byte 255) ++ [byte last]))
    (enough : count < fuel)
    (fits : len + 255 * count + last < 2 ^ 32) :
    readCodes memory fuel place len =
      some (place + count + 1, len + 255 * count + last) := by
  induction count generalizing place len fuel with
  | zero =>
      rcases fuel with - | fuel
      · omega
      have code : (memory place).toNat = last := by
        rw [(holds_cons.mp held).1, toNat_byte (by omega)]
      rw [readCodes, code, if_neg (by omega), u32,
        Nat.mod_eq_of_lt (by omega)]
      rfl
  | succ count induction =>
      rcases fuel with - | fuel
      · omega
      rw [List.replicate_succ, List.cons_append, holds_cons] at held
      have code : (memory place).toNat = 255 := by
        rw [held.1, toNat_byte (by omega)]
      rw [readCodes, code, if_pos rfl, u32, Nat.mod_eq_of_lt (by omega),
        induction held.2 (by omega) (by omega)]
      congr 2 <;> omega

theorem length_lengthCodes (more : Nat) :
    (lengthCodes more).length = more / 255 + 1 := by
  rw [lengthCodes, List.length_append, List.length_replicate]
  rfl

/-- A length is read back as it is written. -/
theorem readCodes_lengthCodes
    {more : Nat}
    (held : Holds memory place (lengthCodes more))
    (enough : more / 255 < fuel)
    (fits : len + more < 2 ^ 32) :
    readCodes memory fuel place len =
      some (place + (lengthCodes more).length, len + more) := by
  have last : more % 255 < 255 := Nat.mod_lt _ (by omega)
  rw [readCodes_replicate last held enough (by omega), length_lengthCodes]
  congr 2
  omega

theorem le_length_moreLength
    {level : Level}
    (short : level = .one → len ≤ 262) :
    len / 255 ≤ (moreLength level len).length := by
  rw [moreLength.eq_def]
  by_cases few : len < 7
  · rw [if_pos few]
    omega
  · rw [if_neg few]
    cases level with
    | one =>
        have bound := short rfl
        rw [List.length_singleton]
        omega
    | two =>
        simp only [length_lengthCodes]
        omega

/-- The first length is the number in the control byte less one. -/
theorem readLength_moreLength
    {level : Level}
    (held : Holds memory place (moreLength level len))
    (positive : 0 < len)
    (short : level = .one → len ≤ 262)
    (enough : len / 255 < fuel)
    (fits : len < 2 ^ 32) :
    readLength level memory fuel place (min len 7 - 1) =
      some (place + (moreLength level len).length, len - 1) := by
  by_cases few : len < 7
  · have least : min len 7 = len := by omega
    rw [readLength.eq_def, moreLength.eq_def, if_pos few,
      if_neg (by omega), least]
    rfl
  · have least : min len 7 = 7 := by omega
    rw [moreLength.eq_def, if_neg few] at held
    rw [readLength.eq_def, moreLength.eq_def, if_neg few, least, if_pos rfl]
    cases level with
    | one =>
        have bound := short rfl
        have code : (memory place).toNat = len - 7 := by
          rw [(holds_cons.mp held).1, toNat_byte (by omega)]
        simp only [code]
        congr 2
        omega
    | two =>
        simp only
        rw [readCodes_lengthCodes held (by omega) (by omega)]
        congr 2
        omega

end Lengths

/-! ## Matches -/

section Matches

variable {state : Decoder} {text : List Byte} {distance len fuel : Nat}

theorem sub32_of_le {a b : Nat} (fits : a < 2 ^ 32) (below : b ≤ a) :
    sub32 a b = a - b := by
  rw [sub32, u32]
  omega

/-- A near match is read back. -/
theorem readMatch_near
    {level : Level}
    (near : distance < 8192)
    (unlike : level = .two → distance ≠ 8191)
    (positive : 0 < len)
    (short : level = .one → len ≤ 262)
    (enough : len / 255 < fuel)
    (fits : len < 2 ^ 32)
    (ctrl : state.ctrl = (control (min len 7) (distance / 256)).toNat)
    (held :
      Holds state.memory state.ip
        (moreLength level len ++ [byte (distance % 256)]))
    (inside : distance ≤ state.op)
    (low : state.op < 2 ^ 32) :
    readMatch level fuel state =
      some
        { ip := state.ip + (moreLength level len).length + 1
          len := len - 1
          ref := state.op - distance } := by
  have few : min len 7 ≤ 7 := Nat.min_le_right _ _
  have high : distance / 256 < 32 := by omega
  rcases holds_append.mp held with ⟨codes, tail⟩
  have code :
      (state.memory (state.ip + (moreLength level len).length)).toNat =
        distance % 256 := by
    rw [(holds_cons.mp tail).1, toNat_byte (by omega)]
  have reference :
      sub32 (sub32 state.op (distance / 256 * 256)) (distance % 256) =
        state.op - distance := by
    rw [sub32_of_le low (by omega), sub32_of_le (by omega) (by omega)]
    omega
  simp only [readMatch, ctrl, control_len few high, control_high few high,
    readLength_moreLength codes positive short enough fits,
    Option.map_some]
  cases level with
  | one => simp only [readReference, code, reference]
  | two =>
      have apart : ¬ (distance % 256 = 255 ∧ distance / 256 * 256 = 31 <<< 8) := by
        have other := unlike rfl
        rintro ⟨low, high⟩
        omega
      simp only [readReference, code, reference, if_neg apart]

/-- A far match is read back. -/
theorem readMatch_far
    (far : distance < 65536)
    (positive : 0 < len)
    (enough : len / 255 < fuel)
    (fits : len < 2 ^ 32)
    (ctrl : state.ctrl = (control (min len 7) 31).toNat)
    (held :
      Holds state.memory state.ip
        (moreLength .two len ++
          [byte 255, byte (distance / 256), byte (distance % 256)]))
    (inside : distance + 8191 ≤ state.op)
    (low : state.op < 2 ^ 32) :
    readMatch .two fuel state =
      some
        { ip := state.ip + (moreLength .two len).length + 3
          len := len - 1
          ref := state.op - (distance + 8191) } := by
  have few : min len 7 ≤ 7 := Nat.min_le_right _ _
  rcases holds_append.mp held with ⟨codes, tail⟩
  rw [holds_cons, holds_cons, holds_cons] at tail
  rcases tail with ⟨marker, upper, lower, -⟩
  have reference :
      sub32
          (sub32 state.op
            (distance / 256 * 256 + distance % 256)) 8191 =
        state.op - (distance + 8191) := by
    rw [sub32_of_le low (by omega), sub32_of_le (by omega) (by omega)]
    omega
  simp only [readMatch, ctrl, control_len few (by decide : 31 < 32),
    control_high few (by decide : 31 < 32),
    readLength_moreLength codes positive (by simp) enough fits,
    Option.map_some, readReference, marker, upper, lower,
    toNat_byte (by decide : 255 < 256),
    toNat_byte (by omega : distance / 256 < 256),
    toNat_byte (by omega : distance % 256 < 256),
    Nat.shiftLeft_eq, Level.maxDistance]
  norm_num
  rw [reference]

end Matches

/-! ## Turns -/

/-- The buffers lie in memory, one beside the other. -/
structure Layout (call : Call) : Prop where
  inputEnds : call.input + call.length < 2 ^ 32
  outputEnds : call.output + call.maxout < 2 ^ 32
  apart :
    call.input + call.length ≤ call.output ∨
      call.output + call.maxout ≤ call.input

theorem Layout.ipLimit {call : Call} (layout : Layout call) :
    call.ipLimit = call.input + call.length :=
  Nat.mod_eq_of_lt layout.inputEnds

theorem Layout.opLimit {call : Call} (layout : Layout call) :
    call.opLimit = call.output + call.maxout :=
  Nat.mod_eq_of_lt layout.outputEnds

/-- The text stands in the output buffer, and nothing else has changed. -/
structure Written
    (call : Call) (before memory : Memory) (text : List Byte) : Prop where
  holds : Holds memory call.output text
  elsewhere :
    ∀ place,
      place < call.output ∨ call.output + text.length ≤ place →
        memory place = before place

/-- The bytes from the control byte on are the rest of the input. -/
structure Ready
    (call : Call) (before : Memory) (state : Decoder) (text : List Byte)
    (head : Byte) (tail : List Byte) : Prop where
  written : Written call before state.memory text
  op : state.op = call.output + text.length
  ctrl : state.ctrl = head.toNat
  held : Holds state.memory state.ip tail
  begins : call.input ≤ state.ip
  ends : state.ip + tail.length = call.input + call.length

/-- Where a turn goes which makes a text and leaves bytes to read. -/
inductive Goes
    (call : Call) (before : Memory) (text : List Byte) :
    List Byte → Turn → Prop where
  | returns {memory : Memory}
      (written : Written call before memory text) :
      Goes call before text [] (.returns text.length memory)
  | again {head : Byte} {tail : List Byte} {state : Decoder}
      (ready : Ready call before state text head tail) :
      Goes call before text (head :: tail) (.again state)

section Turns

variable {call : Call} {before memory : Memory} {text : List Byte}

theorem Written.literals
    {ip : Nat} {items : List Byte}
    (written : Written call before memory text)
    (held : Holds memory ip items)
    (apart :
      ip + items.length ≤ call.output + text.length ∨
        call.output + text.length + items.length ≤ ip) :
    Written call before
      (copyForward memory ip (call.output + text.length) items.length)
      (text ++ items) := by
  constructor
  · rw [holds_append]
    constructor
    · refine (holds_congr ?_).mp written.holds
      intro i inside
      exact (copyForward_outside (by omega)).symm
    · rw [Holds, slice_copyForward_of_apart apart]
      exact held
  · intro place outside
    rw [List.length_append] at outside
    rw [copyForward_outside (by omega)]
    exact written.elsewhere place (by omega)

theorem Written.reference
    {distance : Nat}
    (written : Written call before memory text)
    (positive : 0 < distance)
    (inside : distance ≤ text.length)
    (count : Nat) :
    Written call before
      (copyForward memory (call.output + text.length - distance)
        (call.output + text.length) count)
      (copyBack distance count text) := by
  have longer := length_copyBack positive inside count
  constructor
  · have ends : call.output + text.length - call.output = text.length := by
      omega
    have apart :
        call.output + text.length -
            (call.output + text.length - distance) =
          distance := by
      omega
    have copied :=
      slice_copyForward memory count
        (by omega : call.output ≤ call.output + text.length - distance)
        (by omega :
          call.output + text.length - distance < call.output + text.length)
    rw [ends, apart, written.holds] at copied
    rw [Holds, longer, copied]
  · intro place outside
    rw [copyForward_outside (by omega)]
    exact written.elsewhere place (by omega)

/-- What follows the copy of a turn. -/
theorem goes_of_written
    {rest : List Byte} {ip : Nat} {made : Decoder}
    (layout : Layout call)
    (written : Written call before made.memory text)
    (op : made.op = call.output + text.length)
    (begins : call.input ≤ ip)
    (next : made.ip = ip + 1)
    (ends : ip + rest.length = call.input + call.length)
    (held : Holds made.memory ip rest)
    (ctrl :
      ip < call.input + call.length →
        made.ctrl = (made.memory ip).toNat) :
    Goes call before text rest
      (if ip < call.ipLimit then .again made
        else .returns (made.op - call.output) made.memory) := by
  rw [layout.ipLimit]
  cases rest with
  | nil =>
      have last : made.op - call.output = text.length := by omega
      rw [List.length_nil] at ends
      rw [if_neg (by omega), last]
      exact .returns written
  | cons head tail =>
      rw [List.length_cons] at ends
      rw [holds_cons] at held
      rw [if_pos (by omega)]
      apply Goes.again
      constructor
      · exact written
      · exact op
      · rw [ctrl (by omega), held.1]
      · rw [next]
        exact held.2
      · omega
      · omega

variable {state : Decoder} {rest : List Byte}

theorem literalTurn_goes
    {items : List Byte}
    (layout : Layout call)
    (ready :
      Ready call before state text (byte (items.length - 1))
        (items ++ rest))
    (some : items ≠ [])
    (few : items.length ≤ 32)
    (room : text.length + items.length ≤ call.maxout) :
    Goes call before (text ++ items) rest (literalTurn call state) := by
  rcases ready with ⟨written, op, ctrl, held, begins, ends⟩
  have positive := List.length_pos_of_ne_nil some
  have counted : state.ctrl + 1 = items.length := by
    rw [ctrl, toNat_byte (by omega)]
    omega
  have inputEnds := layout.inputEnds
  have outputEnds := layout.outputEnds
  have apart := layout.apart
  have opFits : ¬ u32 (state.op + items.length) > call.opLimit := by
    rw [layout.opLimit, u32]
    omega
  rw [List.length_append] at ends
  have ipFits : ¬ u32 (state.ip + items.length) > call.ipLimit := by
    rw [layout.ipLimit, u32]
    omega
  rcases holds_append.mp held with ⟨heldItems, heldRest⟩
  simp only [literalTurn, counted, if_neg opFits, if_neg ipFits]
  rw [op]
  have copied := written.literals heldItems (by omega)
  apply goes_of_written layout
  · exact copied
  · rw [List.length_append, ← Nat.add_assoc]
  · omega
  · rfl
  · omega
  · refine (holds_congr ?_).mp heldRest
    intro i low
    exact (copyForward_outside (by omega)).symm
  · intro _
    rfl

theorem matchTurn_goes
    {strictAlign : Bool} {head : Byte} {tail : List Byte}
    {distance count : Nat} {read : Match}
    (layout : Layout call)
    (ready : Ready call before state text head tail)
    (len : read.len + 3 = count)
    (ref : read.ref = state.op - (distance - 1))
    (begins : call.input ≤ read.ip)
    (ends : read.ip + rest.length = call.input + call.length)
    (held : Holds state.memory read.ip rest)
    (positive : 0 < distance)
    (inside : distance ≤ text.length)
    (room : text.length + count ≤ call.maxout) :
    Goes call before (copyBack distance count text) rest
      (matchTurn strictAlign call state read) := by
  have op := ready.op
  have inputEnds := layout.inputEnds
  have outputEnds := layout.outputEnds
  have apart := layout.apart
  have longer := length_copyBack positive inside count
  have opFits : ¬ u32 (state.op + read.len + 3) > call.opLimit := by
    rw [layout.opLimit, u32]
    omega
  have refFits : ¬ sub32 read.ref 1 < call.output := by
    rw [sub32_of_le (by omega) (by omega)]
    omega
  have copy := copyMatch_eq strictAlign state.memory read.len
    (by omega : 0 < read.ref) (by omega : read.ref ≤ state.op)
  have source :
      read.ref - 1 = call.output + text.length - distance := by
    omega
  have all : 3 + read.len = count := by omega
  simp only [matchTurn, if_neg opFits, if_neg refFits, copy]
  rw [source, all, op]
  have copied := ready.written.reference positive inside count
  have untouched :
      ∀ place,
        call.input ≤ place → place < call.input + call.length →
          copyForward state.memory (call.output + text.length - distance)
              (call.output + text.length) count place =
            state.memory place := by
    intro place above below
    exact copyForward_outside (by omega)
  apply goes_of_written layout
  · exact copied
  · change call.output + text.length + 3 + read.len = _
    omega
  · exact begins
  · rfl
  · exact ends
  · refine (holds_congr ?_).mp held
    intro i low
    exact (untouched _ (by omega) (by omega)).symm
  · intro inBuffer
    exact congrArg BitVec.toNat (untouched read.ip begins inBuffer).symm

/-! ## Lists of tokens -/

variable {level : Level} {strictAlign : Bool} {fuel codes : Nat}

theorem turn_of_readMatch
    {read : Match} {head : Byte} {tail : List Byte} {distance count : Nat}
    (layout : Layout call)
    (ready : Ready call before state text head tail)
    (large : 32 ≤ head.toNat)
    (found : readMatch level codes state = some read)
    (len : read.len + 3 = count)
    (ref : read.ref = state.op - (distance - 1))
    (begins : call.input ≤ read.ip)
    (ends : read.ip + rest.length = call.input + call.length)
    (held : Holds state.memory read.ip rest)
    (positive : 0 < distance)
    (inside : distance ≤ text.length)
    (room : text.length + count ≤ call.maxout) :
    ∃ next,
      turn strictAlign level call codes state = some next ∧
        Goes call before (copyBack distance count text) rest next := by
  rw [turn, ready.ctrl, if_pos large, found]
  refine ⟨_, rfl, ?_⟩
  exact matchTurn_goes layout ready len ref begins ends held positive inside
    room

/-- A turn expands a reference. -/
theorem turn_reference
    {head : Byte} {tail : List Byte} {distance count : Nat}
    (layout : Layout call)
    (ready : Ready call before state text head (tail ++ rest))
    (encoded : encode level (.reference distance count) = head :: tail)
    (encodable : HasBytes level (.reference distance count))
    (positive : 0 < distance)
    (inside : distance ≤ text.length)
    (room : text.length + count ≤ call.maxout)
    (enough : tail.length ≤ codes) :
    ∃ next,
      turn strictAlign level call codes state = some next ∧
        Goes call before (copyBack distance count text) rest next := by
  have op := ready.op
  have begins := ready.begins
  have ends := ready.ends
  have outputEnds := layout.outputEnds
  rcases holds_append.mp ready.held with ⟨heldTail, heldRest⟩
  rcases encodable with ⟨several, bounds⟩
  have short : level = .one → count - 2 ≤ 262 := by
    rintro rfl
    have bound : count ≤ 264 := bounds.2
    omega
  have long := le_length_moreLength short
  rw [List.length_append] at ends
  by_cases near : level = .one ∨ distance - 1 < 8191
  · have close : distance - 1 < 8192 := by
      cases level with
      | one =>
          have bound : distance ≤ 8192 := bounds.1
          omega
      | two =>
          have bound : distance - 1 < 8191 := near.resolve_left (by simp)
          omega
    have unlike : level = .two → distance - 1 ≠ 8191 := by
      rintro rfl
      have bound : distance - 1 < 8191 := near.resolve_left (by simp)
      omega
    rw [encode, if_pos near, encodeNear, List.cons.injEq] at encoded
    rcases encoded with ⟨rfl, rfl⟩
    rw [List.length_append, List.length_singleton] at *
    have high := toNat_control (Nat.min_le_right (count - 2) 7)
      (by omega : (distance - 1) / 256 < 32)
    apply turn_of_readMatch layout ready
    · omega
    · exact readMatch_near close unlike (by omega) short (by omega)
        (by omega) ready.ctrl heldTail (by omega) (by omega)
    · simp only
      omega
    · rfl
    · simp only
      omega
    · simp only
      omega
    · exact heldRest
    · exact positive
    · exact inside
    · exact room
  · rw [not_or] at near
    cases level with
    | one => exact absurd rfl near.1
    | two =>
        have bound : distance ≤ 8191 + 65536 := bounds
        rw [encode, if_neg (not_or.mpr near), encodeFar, List.cons.injEq]
          at encoded
        rcases encoded with ⟨rfl, rfl⟩
        have high := toNat_control (Nat.min_le_right (count - 2) 7)
          (by decide : 31 < 32)
        rw [List.length_append, List.length_cons, List.length_cons,
          List.length_singleton] at *
        apply turn_of_readMatch layout ready
        · omega
        · exact readMatch_far (by omega) (by omega) (by omega) (by omega)
            ready.ctrl heldTail (by omega) (by omega)
        · simp only
          omega
        · simp only
          omega
        · simp only
          omega
        · simp only
          omega
        · exact heldRest
        · exact positive
        · exact inside
        · exact room

/-- A turn expands the token whose bytes come next. -/
theorem turn_token
    {token : Token Byte} {head : Byte} {tail : List Byte}
    (strictAlign : Bool)
    (codes : Nat)
    (layout : Layout call)
    (ready : Ready call before state text head (tail ++ rest))
    (encoded : encode level token = head :: tail)
    (encodable : HasBytes level token)
    (fits : Fits text token)
    (room : (expandToken text token).length ≤ call.maxout)
    (enough : tail.length ≤ codes) :
    ∃ next,
      turn strictAlign level call codes state = some next ∧
        Goes call before (expandToken text token) rest next := by
  cases token with
  | literals items =>
      rw [encode, List.cons.injEq] at encoded
      rcases encoded with ⟨rfl, rfl⟩
      have few : items.length ≤ 32 := encodable
      have small : ¬ 32 ≤ state.ctrl := by
        have positive := List.length_pos_of_ne_nil fits
        rw [ready.ctrl, toNat_byte (by omega)]
        omega
      rw [expandToken, List.length_append] at room
      rw [turn, if_neg small]
      refine ⟨_, rfl, ?_⟩
      exact literalTurn_goes layout ready fits few room
  | reference distance count =>
      rcases fits with ⟨positive, inside, -⟩
      rw [expandToken, length_copyBack positive inside] at room
      exact turn_reference layout ready encoded encodable positive inside
        room enough

theorem encode_ne_nil (level : Level) (token : Token Byte) :
    encode level token ≠ [] := by
  cases token with
  | literals items => exact List.cons_ne_nil _ _
  | reference distance count =>
      rw [encode]
      split
      · exact List.cons_ne_nil _ _
      · exact List.cons_ne_nil _ _

theorem length_le_encodeAll (level : Level) (tokens : List (Token Byte)) :
    tokens.length ≤ (encodeAll level tokens).length := by
  induction tokens with
  | nil => exact Nat.zero_le _
  | cons token tokens induction =>
      have some := List.length_pos_of_ne_nil (encode_ne_nil level token)
      rw [encodeAll] at induction
      rw [encodeAll, List.flatMap_cons, List.length_append, List.length_cons]
      omega

/-- The loop expands the tokens one after the other. -/
theorem loop_tokens
    {head : Byte} {tail : List Byte}
    (strictAlign : Bool)
    (codes fuel : Nat)
    (tokens : List (Token Byte))
    (layout : Layout call)
    (ready : Ready call before state text head tail)
    (encoded : encodeAll level tokens = head :: tail)
    (encodable : ∀ token ∈ tokens, HasBytes level token)
    (fit : AllFit text tokens)
    (room : (expand text tokens).length ≤ call.maxout)
    (enoughCodes : tail.length ≤ codes)
    (enough : tokens.length ≤ fuel) :
    ∃ memory,
      loop strictAlign level call codes fuel state =
          some ((expand text tokens).length, memory) ∧
        Written call before memory (expand text tokens) := by
  induction tokens generalizing state text head tail fuel with
  | nil => exact absurd encoded (List.cons_ne_nil _ _).symm
  | cons token tokens induction =>
      rcases fuel with - | fuel
      · exact absurd enough (Nat.not_succ_le_zero _)
      rcases fit with ⟨fits, later⟩
      have least := length_le_expand later
      rw [expand_cons] at room
      rw [encodeAll, List.flatMap_cons] at encoded
      rcases first : encode level token with - | ⟨control, bytes⟩
      · exact absurd first (encode_ne_nil level token)
      rw [first, List.cons_append, List.cons.injEq] at encoded
      rcases encoded with ⟨rfl, rfl⟩
      rw [List.length_append] at enoughCodes
      rcases turn_token strictAlign codes layout ready first (encodable token List.mem_cons_self) fits (by omega)
          (by omega) with
        ⟨next, turned, goes⟩
      rw [loop, turned, expand_cons]
      have remaining : encodeAll level tokens = tokens.flatMap (encode level) :=
        rfl
      rw [← remaining] at goes enoughCodes
      cases goesTo : encodeAll level tokens with
      | nil =>
          have none := length_le_encodeAll level tokens
          rw [goesTo, List.length_nil, Nat.le_zero] at none
          rw [goesTo] at goes
          cases goes with
          | returns written =>
              rw [List.eq_nil_of_length_eq_zero none]
              exact ⟨_, rfl, written⟩
      | cons head tail =>
          rw [goesTo] at goes enoughCodes
          rw [List.length_cons] at enoughCodes enough
          cases goes with
          | again ready =>
              exact induction fuel ready goesTo
                (fun token member =>
                  encodable token (List.mem_cons_of_mem _ member))
                later room (by omega) (by omega)

end Turns

/-! ## Compressed blocks -/

/-- A level as the top bits of the first byte name it. -/
def levelIndex : Level → Nat
  | .one => 0
  | .two => 1

/-- The marker of the level, in the first byte. -/
def mark (level : Level) : List Byte → List Byte
  | [] => []
  | head :: tail => byte (head.toNat ||| levelIndex level <<< 5) :: tail

theorem length_mark (level : Level) (bytes : List Byte) :
    (mark level bytes).length = bytes.length := by
  cases bytes with
  | nil => rfl
  | cons head tail => rfl

theorem mark_literals
    (level : Level)
    {count : Nat}
    (few : count < 32)
    (tail : List Byte) :
    mark level (byte count :: tail) =
      control (levelIndex level) count :: tail := by
  have sum : count ||| levelIndex level <<< 5 =
      levelIndex level * 32 + count := by
    have parts :=
      Nat.two_pow_add_eq_or_of_lt (i := 5) few (levelIndex level)
    rw [Nat.or_comm, Nat.shiftLeft_eq, Nat.mul_comm _ 32]
    exact parts.symm
  rw [mark, toNat_byte (by omega), sum]
  rfl

/-- A block: literals first, then any tokens, with the marker of its level. -/
structure Block (level : Level) (text : List Byte) where
  items : List Byte
  tokens : List (Token Byte)
  encodable : ∀ token ∈ .literals items :: tokens, HasBytes level token
  fit : AllFit [] (.literals items :: tokens)
  expands : expand [] (.literals items :: tokens) = text

/-- A block as the compressor leaves it: its tokens, with the level in the first
byte. -/
def Block.bytes
    {level : Level} {text : List Byte} (block : Block level text) :
    List Byte :=
  mark level (encodeAll level (.literals block.items :: block.tokens))

section Blocks

variable {level : Level} {text : List Byte} {call : Call} {memory : Memory}
  {fuel : Nat}

theorem Block.bytes_eq (block : Block level text) :
    block.bytes =
      control (levelIndex level) (block.items.length - 1) ::
        (block.items ++ encodeAll level block.tokens) := by
  have few : block.items.length ≤ 32 :=
    block.encodable (.literals block.items) List.mem_cons_self
  have some := List.length_pos_of_ne_nil block.fit.1
  rw [Block.bytes, encodeAll, List.flatMap_cons, encode, List.cons_append,
    mark_literals level (by omega)]
  rfl

/-- The decompressor writes the text of a block, and returns its length. -/
theorem fastlzDecompress_block
    (strictAlign : Bool)
    (block : Block level text)
    (layout : Layout call)
    (length : call.length = block.bytes.length)
    (held : Holds memory call.input block.bytes)
    (room : text.length ≤ call.maxout)
    (enough : call.length ≤ fuel) :
    ∃ after,
      fastlzDecompress strictAlign call fuel memory =
          some (text.length, after) ∧
        Written call memory after text := by
  have few : block.items.length ≤ 32 :=
    block.encodable (.literals block.items) List.mem_cons_self
  have some := List.length_pos_of_ne_nil block.fit.1
  have index : levelIndex level ≤ 1 := by
    cases level with
    | one => exact Nat.zero_le 1
    | two => exact Nat.le_refl 1
  have low : block.items.length - 1 < 32 := by omega
  have counted := length_le_encodeAll level block.tokens
  rw [block.bytes_eq, List.length_cons, List.length_append] at length
  rw [block.bytes_eq, holds_cons] at held
  have ready :
      Ready call memory (start call memory) []
        (byte (block.items.length - 1))
        (block.items ++ encodeAll level block.tokens) := by
    constructor
    · constructor
      · exact holds_nil
      · intro place outside
        rfl
    · rfl
    · have high := control_high (by omega : levelIndex level ≤ 7) low
      rw [Nat.shiftLeft_eq] at high
      rw [start, held.1, toNat_byte (by omega)]
      exact Nat.eq_of_mul_eq_mul_right (by decide) high
    · exact held.2
    · exact Nat.le_succ _
    · rw [List.length_append]
      change call.input + 1 + _ = _
      omega
  have expanded := block.expands
  have looped :=
    loop_tokens strictAlign fuel fuel
      (.literals block.items :: block.tokens) layout ready rfl
      block.encodable block.fit (by rw [expanded]; exact room)
      (by rw [List.length_append]; omega) (by rw [List.length_cons]; omega)
  rw [expanded] at looped
  have number : (memory call.input).toNat >>> 5 + 1 = levelIndex level + 1 := by
    rw [held.1, control_len (by omega) low]
  rw [fastlzDecompress]
  simp only [number]
  cases level with
  | one => exact looped
  | two => exact looped

end Blocks

end NopOS.Lz.TokenFormat
