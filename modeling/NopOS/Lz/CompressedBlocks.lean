import NopOS.Lz.Compress

/-!
# The compressor writes blocks

Every turn of the compressor leaves the bytes of tokens in the output which
expand to a prefix of the input, and behind them the literals of the token it
has not finished.  The size of the output follows its position in the input.
-/

namespace NopOS.Lz.CompressedBlocks

open NopOS.Lib.IndexedBuffer
open NopOS.Lib.Lz77
open NopOS.Lz.Decompress
open NopOS.Lz.TokenFormat
open NopOS.Lz.Compress

/-! ## Bytes put behind the output -/

section Put

variable {bytes written : List Byte} {state : Compressor}

@[simp]
theorem put_op (state : Compressor) (value : Byte) :
    (put state value).op = state.op + 1 :=
  rfl

theorem put_before
    {value : Byte} {place : Nat}
    (other : place ≠ state.op) :
    (put state value).output place = state.output place :=
  Function.update_of_ne other _ _

@[simp]
theorem putAll_nil (state : Compressor) : putAll [] state = state :=
  rfl

@[simp]
theorem putAll_cons (value : Byte) (bytes : List Byte) (state : Compressor) :
    putAll (value :: bytes) state = putAll bytes (put state value) :=
  rfl

theorem putAll_append
    (first second : List Byte) (state : Compressor) :
    putAll (first ++ second) state = putAll second (putAll first state) :=
  List.foldl_append

@[simp]
theorem putAll_ip : (putAll bytes state).ip = state.ip := by
  induction bytes generalizing state with
  | nil => rfl
  | cons value bytes induction => exact induction

@[simp]
theorem putAll_copy : (putAll bytes state).copy = state.copy := by
  induction bytes generalizing state with
  | nil => rfl
  | cons value bytes induction => exact induction

@[simp]
theorem putAll_htab : (putAll bytes state).htab = state.htab := by
  induction bytes generalizing state with
  | nil => rfl
  | cons value bytes induction => exact induction

@[simp]
theorem putAll_op :
    (putAll bytes state).op = state.op + bytes.length := by
  induction bytes generalizing state with
  | nil => rfl
  | cons value bytes induction =>
      rw [putAll_cons, induction, put_op, List.length_cons]
      omega

theorem putAll_before
    {place : Nat}
    (before : place < state.op ∨ state.op + bytes.length ≤ place) :
    (putAll bytes state).output place = state.output place := by
  induction bytes generalizing state with
  | nil => rfl
  | cons value bytes induction =>
      rw [List.length_cons] at before
      rw [putAll_cons, induction (by rw [put_op]; omega),
        put_before (by omega)]

/-- What is put stands behind what has been written. -/
theorem holds_putAll
    (bytes : List Byte)
    (held : Holds state.output 0 written)
    (op : state.op = written.length) :
    Holds (putAll bytes state).output 0 (written ++ bytes) := by
  induction bytes generalizing state written with
  | nil => rwa [putAll_nil, List.append_nil]
  | cons value bytes induction =>
      have next :
          Holds (put state value).output 0 (written ++ [value]) := by
        rw [Holds, List.length_append, List.length_singleton, put, op,
          slice_update, held]
      have longer :
          (put state value).op = (written ++ [value]).length := by
        rw [put, List.length_append, op]
        rfl
      have later := induction next longer
      rwa [List.append_assoc] at later

end Put

/-! ## The bytes of a match -/

section Matches

theorem lengthCodes_unfold (len : Nat) :
    lengthCodes len =
      if 255 ≤ len then byte 255 :: lengthCodes (len - 255)
      else [byte len] := by
  by_cases long : 255 ≤ len
  · have quotient : len / 255 = (len - 255) / 255 + 1 := by omega
    have remainder : len % 255 = (len - 255) % 255 := by omega
    rw [if_pos long, lengthCodes, quotient, remainder,
      List.replicate_succ]
    rfl
  · rw [if_neg long, lengthCodes, Nat.div_eq_of_lt (by omega),
      Nat.mod_eq_of_lt (by omega)]
    rfl

theorem putCodes_eq (len : Nat) (state : Compressor) :
    putCodes len state = putAll (lengthCodes len) state := by
  induction len, state using putCodes.induct with
  | case1 len state long induction =>
      rw [putCodes, if_pos long, induction, lengthCodes_unfold len,
        if_pos long, putAll_cons]
  | case2 len state short =>
      rw [putCodes, if_neg short, lengthCodes_unfold, if_neg short]
      rfl

/-- The tokens of a match; `distance` is biased. -/
def parts (distance len : Nat) : List (Token Byte) :=
  if maxLen - 2 < len then
    .reference (distance + 1) (maxLen - 2) ::
      parts distance (len - (maxLen - 2))
  else [.reference (distance + 1) (len + 2)]
termination_by len
decreasing_by
  rw [maxLen] at *
  omega

/-- The tokens of a match that `turn` has found. -/
def references : Level → Nat → Nat → List (Token Byte)
  | .one, distance, len => parts distance len
  | .two, distance, len => [.reference (distance + 1) (len + 2)]

theorem control_eq (len high : Nat) :
    byte (len <<< 5 + high) = control len high := by
  rw [Nat.shiftLeft_eq]
  rfl

theorem high_eq (distance : Nat) : distance >>> 8 = distance / 256 :=
  Nat.shiftRight_eq_div_pow distance 8

theorem low_eq (distance : Nat) : distance &&& 255 = distance % 256 :=
  Nat.and_two_pow_sub_one_eq_mod distance 8

variable {distance len : Nat} {state : Compressor}

theorem parts_of_long (long : maxLen - 2 < len) :
    parts distance len =
      .reference (distance + 1) (maxLen - 2) ::
        parts distance (len - (maxLen - 2)) := by
  rw [parts, if_pos long]

theorem parts_of_short (short : ¬ maxLen - 2 < len) :
    parts distance len = [.reference (distance + 1) (len + 2)] := by
  rw [parts, if_neg short]

theorem putMatch2_eq :
    putMatch2 distance len state =
      putAll (encode .two (.reference (distance + 1) (len + 2))) state := by
  have same : distance + 1 - 1 = distance := Nat.add_sub_cancel _ _
  have less : len + 2 - 2 = len := Nat.add_sub_cancel _ _
  rw [putMatch2, encode, same, less, Level.maxDistance]
  by_cases near : distance < 8191
  · rw [if_pos near, if_pos (Or.inr near), encodeNear, moreLength,
      low_eq, high_eq]
    by_cases few : len < 7
    · rw [if_pos few, if_pos few, control_eq, Nat.min_eq_left (by omega)]
      rfl
    · rw [if_neg few, if_neg few, control_eq, Nat.min_eq_right (by omega),
        putAll_cons, putAll_append]
      simp only [putCodes_eq]
      rfl
  · have far : ¬ (Level.two = Level.one ∨ distance < 8191) := by
      rintro (wrong | close)
      · cases wrong
      · exact near close
    rw [if_neg near, if_neg far, encodeFar, moreLength]
    simp only [low_eq, high_eq]
    by_cases few : len < 7
    · rw [if_pos few, if_pos few, control_eq, Nat.min_eq_left (by omega)]
      rfl
    · rw [if_neg few, if_neg few, control_eq, putCodes_eq,
        Nat.min_eq_right (by omega)]
      exact
        (putAll_append (control 7 31 :: lengthCodes (len - 7)) _ state).symm

theorem encode_one (count : Nat) :
    encode .one (.reference (distance + 1) (count + 2)) =
      control (min count 7) (distance / 256) ::
        (moreLength .one count ++ [byte (distance % 256)]) := by
  rw [encode, if_pos (Or.inl rfl)]
  rfl

theorem putMatch1_eq (distance len : Nat) (state : Compressor) :
    putMatch1 distance len state =
      putAll (encodeAll .one (parts distance len)) state := by
  induction len, state using putMatch1.induct distance with
  | case1 len state long induction =>
      have first :
          encode .one (.reference (distance + 1) (maxLen - 2)) =
            [byte (7 <<< 5 + distance >>> 8), byte (maxLen - 2 - 7 - 2),
              byte (distance &&& 255)] := by
        rw [low_eq, high_eq, control_eq]
        exact encode_one (maxLen - 2 - 2)
      rw [putMatch1, if_pos long, induction, parts_of_long long, encodeAll,
        encodeAll, List.flatMap_cons, putAll_append, first]
  | case2 len state short few =>
      rw [putMatch1, if_neg short, if_pos few, parts_of_short short,
        encodeAll, List.flatMap_singleton, encode_one, moreLength,
        if_pos few, low_eq, high_eq, control_eq, Nat.min_eq_left (by omega)]
      rfl
  | case3 len state short many =>
      rw [putMatch1, if_neg short, if_neg many, parts_of_short short,
        encodeAll, List.flatMap_singleton, encode_one, moreLength,
        if_neg many, low_eq, high_eq, control_eq,
        Nat.min_eq_right (by omega)]
      rfl

/-- The bytes of a match are those of its tokens. -/
theorem putMatch_eq (level : Level) :
    putMatch level distance len state =
      putAll (encodeAll level (references level distance len)) state := by
  cases level with
  | one => exact putMatch1_eq distance len state
  | two =>
      rw [putMatch, putMatch2_eq, references, encodeAll,
        List.flatMap_singleton]

/-! ## Matches -/

/--
A match the compressor may write: `len` is biased by two, and a far match
takes at least five bytes.
-/
structure Matching
    (level : Level) (input : Memory) (anchor distance len : Nat) : Prop where
  inside : distance + 1 ≤ anchor
  positive : 0 < len
  near : level = .one → distance < 8192
  reach : distance < 8191 + 65536
  far : 8191 ≤ distance → 2 < len
  same :
    ∀ i < len + 2,
      input (anchor + i) = input (anchor + i - (distance + 1))

/-- What some tokens make of a prefix of the input. -/
structure Extends
    (level : Level) (input : Memory) (first last : Nat)
    (tokens : List (Token Byte)) : Prop where
  encodable : ∀ token ∈ tokens, HasBytes level token
  fit : AllFit (slice input 0 first) tokens
  expands : expand (slice input 0 first) tokens = slice input 0 last

end Matches

section Extends

variable {level : Level} {input : Memory} {first middle last : Nat}

/-- Tokens that extend the text one after another. -/
theorem Extends.append
    {before after : List (Token Byte)}
    (one : Extends level input first middle before)
    (two : Extends level input middle last after) :
    Extends level input first last (before ++ after) := by
  constructor
  · intro token member
    rcases List.mem_append.mp member with early | late
    · exact one.encodable token early
    · exact two.encodable token late
  · rw [allFit_append, one.expands]
    exact ⟨one.fit, two.fit⟩
  · rw [expand_append, one.expands, two.expands]

theorem extends_nil : Extends level input first first [] := by
  constructor
  · intro token member
    cases member
  · trivial
  · rfl

theorem extends_literals
    {count : Nat}
    (positive : 0 < count)
    (few : count ≤ maxCopy) :
    Extends level input first (first + count)
      [.literals (slice input first count)] := by
  constructor
  · intro token member
    rw [List.mem_singleton.mp member, HasBytes, length_slice]
    exact few
  · refine ⟨?_, trivial⟩
    apply List.ne_nil_of_length_pos
    rw [length_slice]
    exact positive
  · rw [expand_cons, expand_nil, expandToken, slice_add, Nat.zero_add]

/-- A reference to the same items extends the text by them. -/
theorem extends_reference
    {distance count : Nat}
    (encodable : HasBytes level (.reference distance count))
    (positive : 0 < distance)
    (inside : distance ≤ first)
    (same :
      ∀ i < count, input (first + i) = input (first + i - distance)) :
    Extends level input first (first + count)
      [.reference distance count] := by
  constructor
  · intro token member
    rw [List.mem_singleton.mp member]
    exact encodable
  · refine ⟨⟨positive, ?_, ?_⟩, trivial⟩
    · rw [length_slice]
      exact inside
    · exact Nat.zero_lt_of_lt encodable.1
  · rw [expand_cons, expand_nil, expandToken,
      copyBack_slice positive inside same]

theorem parts_extends
    {anchor distance len : Nat}
    (inside : distance + 1 ≤ anchor)
    (positive : 0 < len)
    (near : distance < 8192)
    (same :
      ∀ i < len + 2,
        input (anchor + i) = input (anchor + i - (distance + 1))) :
    Extends .one input anchor (anchor + (len + 2)) (parts distance len) := by
  induction len using parts.induct generalizing anchor with
  | case1 len long induction =>
      have size : maxLen - 2 = 262 := rfl
      have cut : anchor + (len + 2) =
          anchor + (maxLen - 2) + (len - (maxLen - 2) + 2) := by
        omega
      rw [parts_of_long long, cut]
      refine
        Extends.append
          (?_ : Extends .one input anchor (anchor + (maxLen - 2)) [_]) ?_
      · apply extends_reference
        · exact ⟨by omega, by omega, by omega⟩
        · exact Nat.succ_pos distance
        · exact inside
        · intro i low
          exact same i (by omega)
      · apply induction
        · omega
        · omega
        · intro i low
          rw [Nat.add_assoc]
          exact same (maxLen - 2 + i) (by omega)
  | case2 len short =>
      have size : maxLen - 2 = 262 := rfl
      rw [parts_of_short short]
      apply extends_reference
      · exact ⟨by omega, by omega, by omega⟩
      · exact Nat.succ_pos distance
      · exact inside
      · exact same

variable {anchor distance len : Nat}

/-- A match that was found extends the text by its length. -/
theorem Matching.extends
    (matching : Matching level input anchor distance len) :
    Extends level input anchor (anchor + (len + 2))
      (references level distance len) := by
  rcases matching with ⟨inside, positive, near, reach, far, same⟩
  cases level with
  | one => exact parts_extends inside positive (near rfl) same
  | two =>
      apply extends_reference
      · exact ⟨by omega, reach⟩
      · exact Nat.succ_pos distance
      · exact inside
      · exact same

theorem length_parts (positive : 0 < len) :
    (encodeAll .one (parts distance len)).length ≤ len + 1 := by
  induction len using parts.induct with
  | case1 len long induction =>
      have size : maxLen - 2 = 262 := rfl
      have rest := induction (by omega)
      have part :
          (encode .one (.reference (distance + 1) (maxLen - 2)) :
            List Byte).length = 3 := by
        exact congrArg List.length (encode_one (maxLen - 2 - 2))
      rw [encodeAll] at rest
      rw [parts_of_long long, encodeAll, List.flatMap_cons,
        List.length_append, part]
      omega
  | case2 len short =>
      rw [parts_of_short short, encodeAll, List.flatMap_singleton, encode_one,
        moreLength]
      split
      · exact Nat.succ_le_succ positive
      · simp only [List.length_cons, List.length_append, List.length_nil]
        omega

/-- A match takes fewer bytes than it covers. -/
theorem Matching.size
    (matching : Matching level input anchor distance len) :
    (encodeAll level (references level distance len)).length ≤ len + 1 := by
  rcases matching with ⟨inside, positive, near, reach, far, same⟩
  cases level with
  | one => exact length_parts positive
  | two =>
      have less : len + 2 - 2 = len := Nat.add_sub_cancel _ _
      rw [references, encodeAll, List.flatMap_singleton, encode, less,
        Nat.add_sub_cancel]
      by_cases close : distance < 8191
      · rw [if_pos (Or.inr close), encodeNear, moreLength]
        split
        · exact Nat.succ_le_succ positive
        · simp only [List.length_cons, List.length_append, List.length_nil,
            length_lengthCodes]
          omega
      · have several := far (by omega)
        have away : ¬ (Level.two = Level.one ∨ distance < 8191) := by
          rintro (wrong | near)
          · cases wrong
          · exact close near
        rw [if_neg away, encodeFar, moreLength]
        split
        · simp only [List.length_cons, List.length_append, List.length_nil]
          omega
        · simp only [List.length_cons, List.length_append, List.length_nil,
            length_lengthCodes]
          omega

end Extends

/-! ## Comparisons -/

section Comparisons

variable {input : Memory} {left ref ip : Nat}

theorem compareTimes_bounds (input : Memory) (left ref ip : Nat) :
    ip ≤ (compareTimes input left ref ip).2 ∧
      (compareTimes input left ref ip).2 ≤ ip + left ∧
        (0 < left → ip < (compareTimes input left ref ip).2) := by
  induction left generalizing ref ip with
  | zero =>
      refine ⟨Nat.le_refl _, Nat.le_refl _, ?_⟩
      intro impossible
      cases impossible
  | succ left induction =>
      rw [compareTimes]
      split
      · exact ⟨by omega, by omega, fun _ => Nat.lt_succ_self ip⟩
      · rcases induction (ref + 1) (ip + 1) with
          ⟨low, high, -⟩
        exact ⟨by omega, by omega, fun _ => by omega⟩

/-- What the comparison has passed is the same. -/
theorem compareTimes_same
    {i : Nat}
    (before : ip + i + 1 < (compareTimes input left ref ip).2) :
    input (ref + i) = input (ip + i) := by
  induction left generalizing ref ip i with
  | zero =>
      rw [compareTimes] at before
      omega
  | succ left induction =>
      rw [compareTimes] at before
      split at before
      · simp only at before
        omega
      · next equal =>
        rw [not_not] at equal
        cases i with
        | zero => exact equal
        | succ i =>
            have later :=
              @induction (ref + 1) (ip + 1) i (by omega)
            rwa [Nat.add_assoc, Nat.add_comm 1, Nat.add_assoc,
              Nat.add_comm 1] at later

/-- A comparison which does not break has found all bytes equal. -/
theorem compareTimes_whole
    (whole : (compareTimes input left ref ip).1 = false) :
    (compareTimes input left ref ip).2 = ip + left ∧
      ∀ i < left, input (ref + i) = input (ip + i) := by
  induction left generalizing ref ip with
  | zero =>
      refine ⟨rfl, ?_⟩
      intro i impossible
      cases impossible
  | succ left induction =>
      rw [compareTimes] at whole
      rw [compareTimes]
      split at whole
      · cases whole
      · next equal =>
        rcases induction whole with ⟨ends, same⟩
        rw [if_neg equal]
        rw [not_not] at equal
        refine ⟨by rw [ends]; omega, ?_⟩
        intro i low
        cases i with
        | zero => exact equal
        | succ i =>
            have later := same i (by omega)
            rwa [Nat.add_assoc, Nat.add_comm 1, Nat.add_assoc,
              Nat.add_comm 1] at later

theorem runEnd_bounds (input : Memory) (x : Byte) (left ref ip : Nat) :
    ip ≤ runEnd input x left ref ip ∧
      runEnd input x left ref ip ≤ ip + left ∧
        (input ref = x → 0 < left → ip < runEnd input x left ref ip) := by
  induction left generalizing ref ip with
  | zero =>
      refine ⟨Nat.le_refl _, Nat.le_refl _, ?_⟩
      intro _ impossible
      cases impossible
  | succ left induction =>
      rw [runEnd]
      split
      · next other =>
        exact ⟨Nat.le_refl _, by omega, fun equal => absurd equal other⟩
      · rcases induction (ref + 1) (ip + 1) with
          ⟨low, high, -⟩
        exact ⟨by omega, by omega, fun _ _ => by omega⟩

theorem runEnd_same
    {x : Byte} {i : Nat}
    (before : ip + i < runEnd input x left ref ip) :
    input (ref + i) = x := by
  induction left generalizing ref ip i with
  | zero =>
      rw [runEnd] at before
      omega
  | succ left induction =>
      rw [runEnd] at before
      split at before
      · omega
      · next equal =>
        rw [not_not] at equal
        cases i with
        | zero => exact equal
        | succ i =>
            have later :=
              @induction (ref + 1) (ip + 1) i (by omega)
            rwa [Nat.add_assoc, Nat.add_comm 1] at later

end Comparisons

end NopOS.Lz.CompressedBlocks
