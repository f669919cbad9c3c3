import NopOS.Lz.KernelImage

/-!
# The decompressor on any input

The bytes given to the decompressor need not come from the compressor.  The
length of a match is read without a bound, so a long run of 255 bytes can make
it wrap around; with shorter runs the decompressor returns, and what it writes
is a text in the output buffer.  The bytes of a match are read without a look at
the end of the input, so that the text depends on the input and on the bytes
just behind it.
-/

namespace NopOS.Lz.CorruptInput

open NopOS.Lib.IndexedBuffer
open NopOS.Lib.Lz77
open NopOS.Lz.Decompress
open NopOS.Lz.TokenFormat

/-- Memory in which no run of 255 bytes at the input reaches `run` bytes, with
the buffers apart from each other, below 4 GiB with room for the longest match,
and the output not below the farthest distance. -/
structure Guarded (call : Call) (source : Memory) (run : Nat) : Prop where
  nonempty : 0 < call.length
  outputLow : 73728 ≤ call.output
  outputEnds : call.output + call.maxout + 255 * run + 300 < 2 ^ 32
  inputEnds : call.input + call.length + 300 < 2 ^ 32
  apart :
    call.input + call.length + run + 3 ≤ call.output ∨
      call.output + call.maxout ≤ call.input
  breaks :
    ∀ place,
      call.input ≤ place → place ≤ call.input + call.length →
        ∃ i < run, source (place + i) ≠ byte 255

/-- The bytes at the input, and those behind it which may be read. -/
def SameInput (call : Call) (run : Nat) (memory source : Memory) : Prop :=
  ∀ place,
    call.input ≤ place → place < call.input + call.length + run + 3 →
      memory place = source place

section Reading

variable {source : Memory} {run fuel : Nat}

/-- Length codes are read up to the first byte which is not 255. -/
theorem readCodes_breaks
    {ip : Nat}
    (len : Nat)
    (breaks : ∃ i < run, source (ip + i) ≠ byte 255)
    (fits : len + 255 * run < 2 ^ 32)
    (enough : run ≤ fuel) :
    ∃ after total,
      ip < after ∧ after ≤ ip + run ∧ total ≤ len + 255 * run ∧
        ∀ memory : Memory,
          (∀ i < run, memory (ip + i) = source (ip + i)) →
            readCodes memory fuel ip len = some (after, total) := by
  induction run generalizing ip len fuel with
  | zero =>
      rcases breaks with ⟨i, impossible, -⟩
      cases impossible
  | succ run induction =>
      rcases fuel with - | fuel
      · exact absurd enough (Nat.not_succ_le_zero run)
      have small := (source ip).isLt
      by_cases more : (source ip).toNat = 255
      · have later : ∃ i < run, source (ip + 1 + i) ≠ byte 255 := by
          rcases breaks with ⟨i, inside, other⟩
          cases i with
          | zero =>
              exfalso
              apply other
              apply BitVec.eq_of_toNat_eq
              rw [Nat.add_zero, more, toNat_byte (by decide)]
          | succ i =>
              refine ⟨i, by omega, ?_⟩
              rwa [Nat.add_assoc, Nat.add_comm 1]
        rcases @induction fuel (ip + 1) (len + 255) later (by omega)
            (Nat.le_of_succ_le_succ enough) with
          ⟨after, total, low, high, bound, reads⟩
        refine ⟨after, total, by omega, by omega, by omega, ?_⟩
        intro memory same
        have first := same 0 (Nat.succ_pos run)
        rw [Nat.add_zero] at first
        have code : (memory ip).toNat = 255 := by
          rw [first, more]
        have sum : u32 (len + 255) = len + 255 := by
          rw [u32]
          omega
        rw [readCodes, code, if_pos rfl, sum]
        apply reads
        intro i inside
        have next := same (i + 1) (by omega)
        rwa [Nat.add_comm i, ← Nat.add_assoc] at next
      · refine ⟨ip + 1, len + (source ip).toNat, by omega, by omega, by omega,
          ?_⟩
        intro memory same
        have first := same 0 (Nat.succ_pos run)
        rw [Nat.add_zero] at first
        rw [readCodes, first, if_neg more, u32, Nat.mod_eq_of_lt (by omega)]

/-- What a read match can be, whatever the bytes. -/
structure Reads
    (level : Level) (call : Call) (source : Memory) (run fuel ip op ctrl : Nat)
    (read : Match) : Prop where
  further : ip < read.ip
  near : read.ip ≤ ip + run + 3
  len : read.len ≤ 255 * run + 261
  behind : read.ref ≤ op
  reach : op ≤ read.ref + 73726
  reads :
    ∀ memory,
      SameInput call run memory source →
        readMatch level fuel { ip, op, ctrl, memory } = some read

/-- A length ends where the bytes 255 do. -/
theorem readLength_breaks
    {ip : Nat}
    (level : Level)
    (len : Nat)
    (breaks : ∃ i < run, source (ip + i) ≠ byte 255)
    (few : len ≤ 6)
    (fits : 255 * run + 6 < 2 ^ 32)
    (enough : run ≤ fuel) :
    ∃ after total,
      ip ≤ after ∧ after ≤ ip + run ∧ total ≤ 255 * run + 6 ∧
        ∀ memory : Memory,
          (∀ i < run, memory (ip + i) = source (ip + i)) →
            readLength level memory fuel ip len = some (after, total) := by
  have positive : 0 < run := by
    rcases breaks with ⟨i, inside, -⟩
    omega
  by_cases long : len = 7 - 1
  · cases level with
    | one =>
        have small := (source ip).isLt
        refine ⟨ip + 1, len + (source ip).toNat, by omega, by omega, by omega,
          ?_⟩
        intro memory same
        have first := same 0 positive
        rw [Nat.add_zero] at first
        rw [readLength.eq_def, if_pos long]
        simp only [first]
    | two =>
        rcases readCodes_breaks len breaks (by omega) enough with
          ⟨after, total, low, high, bound, reads⟩
        refine ⟨after, total, by omega, high, by omega, ?_⟩
        intro memory same
        rw [readLength.eq_def, if_pos long]
        exact reads memory same
  · refine ⟨ip, len, Nat.le_refl ip, by omega, by omega, ?_⟩
    intro memory same
    rw [readLength.eq_def, if_neg long]

theorem readReference_bounds
    {op ofs : Nat}
    (level : Level) (memory : Memory) (ip len : Nat)
    (above : 73728 ≤ op)
    (small : op < 2 ^ 32)
    (low : ofs ≤ 7936) :
    ip < (readReference level memory op ofs ip len).ip ∧
      (readReference level memory op ofs ip len).ip ≤ ip + 3 ∧
        (readReference level memory op ofs ip len).len = len ∧
          (readReference level memory op ofs ip len).ref ≤ op ∧
            op ≤ (readReference level memory op ofs ip len).ref + 73726 := by
  have code := (memory ip).isLt
  have high := (memory (ip + 1)).isLt
  have last := (memory (ip + 2)).isLt
  have near :
      sub32 (sub32 op ofs) (memory ip).toNat =
        op - ofs - (memory ip).toNat := by
    rw [sub32_of_le small (by omega), sub32_of_le (by omega) (by omega)]
  cases level with
  | one =>
      simp only [readReference, near]
      exact ⟨by omega, by omega, trivial, by omega, by omega⟩
  | two =>
      by_cases far : (memory ip).toNat = 255 ∧ ofs = 31 <<< 8
      · have away :
            sub32
                (sub32 op
                  ((memory (ip + 1)).toNat * 2 ^ 8 +
                    (memory (ip + 2)).toNat))
                8191 =
              op - ((memory (ip + 1)).toNat * 2 ^ 8 +
                (memory (ip + 2)).toNat) - 8191 := by
          rw [sub32_of_le small (by omega), sub32_of_le (by omega) (by omega)]
        simp only [readReference, if_pos far]
        rw [Nat.shiftLeft_eq, Level.maxDistance, away]
        exact ⟨by omega, by omega, trivial, by omega, by omega⟩
      · simp only [readReference, if_neg far, near]
        exact ⟨by omega, by omega, trivial, by omega, by omega⟩

/-- A match is read from the input and the bytes behind it alone. -/
theorem reads_match
    {call : Call} {ip op ctrl : Nat}
    (level : Level)
    (guarded : Guarded call source run)
    (begins : call.input ≤ ip)
    (inside : ip ≤ call.input + call.length)
    (above : call.output ≤ op)
    (below : op ≤ call.output + call.maxout)
    (control : ctrl < 256)
    (enough : run ≤ fuel) :
    ∃ read, Reads level call source run fuel ip op ctrl read := by
  have outputLow := guarded.outputLow
  have outputEnds := guarded.outputEnds
  have shift : ctrl >>> 5 = ctrl / 2 ^ 5 := Nat.shiftRight_eq_div_pow ctrl 5
  have mask : ctrl &&& 31 = ctrl % 2 ^ 5 := Nat.and_two_pow_sub_one_eq_mod ctrl 5
  rcases readLength_breaks level (ctrl >>> 5 - 1)
      (guarded.breaks ip begins inside) (by omega) (by omega) enough with
    ⟨after, total, low, high, bound, reads⟩
  have ofs : (ctrl &&& 31) <<< 8 ≤ 7936 := by
    rw [Nat.shiftLeft_eq]
    omega
  rcases readReference_bounds level source after total (by omega)
      (by omega : op < 2 ^ 32) ofs with
    ⟨further, near, len, behind, reach⟩
  refine ⟨readReference level source op ((ctrl &&& 31) <<< 8) after total, ?_⟩
  constructor
  · omega
  · omega
  · omega
  · exact behind
  · exact reach
  · intro memory same
    have codes := reads memory fun i low => same (ip + i) (by omega) (by omega)
    have zero := same after (by omega) (by omega)
    have one := same (after + 1) (by omega) (by omega)
    have two := same (after + 2) (by omega) (by omega)
    simp only [readMatch, codes, Option.map_some, readReference, zero, one,
      two]

end Reading

/-! ## Turns on any input -/

section Turns

variable {call : Call} {source : Memory} {run : Nat}

/-- The input is not written. -/
theorem sameInput_of_written
    {before memory : Memory} {text : List Byte}
    (guarded : Guarded call source run)
    (written : Written call before memory text)
    (room : text.length ≤ call.maxout)
    (same : SameInput call run before source) :
    SameInput call run memory source := by
  intro place low high
  have apart := guarded.apart
  rw [written.elsewhere place (by omega)]
  exact same place low high

theorem Guarded.ipLimit (guarded : Guarded call source run) :
    call.ipLimit = call.input + call.length := by
  have ends := guarded.inputEnds
  exact Nat.mod_eq_of_lt (by omega)

theorem Guarded.opLimit (guarded : Guarded call source run) :
    call.opLimit = call.output + call.maxout := by
  have ends := guarded.outputEnds
  exact Nat.mod_eq_of_lt (by omega)

variable {strictAlign : Bool} {ip ctrl : Nat} {memory : Memory}
  {text : List Byte} {read : Match}

/-- A match which does not fit, or refers to a place before the output. -/
def Refused (call : Call) (text : List Byte) (read : Match) : Prop :=
  call.maxout < text.length + read.len + 3 ∨ read.ref - 1 < call.output

/-- A match that does not fit is refused. -/
theorem matchTurn_refused
    (guarded : Guarded call source run)
    (room : text.length ≤ call.maxout)
    (len : read.len ≤ 255 * run + 261)
    (reach : call.output + text.length ≤ read.ref + 73726)
    (behind : read.ref ≤ call.output + text.length)
    (refused : Refused call text read) :
    matchTurn strictAlign call
        { ip, op := call.output + text.length, ctrl, memory } read =
      .returns 0 memory := by
  have outputLow := guarded.outputLow
  have outputEnds := guarded.outputEnds
  have limit := guarded.opLimit
  have sum :
      u32 (call.output + text.length + read.len + 3) =
        call.output + text.length + read.len + 3 := by
    rw [u32]
    omega
  have back : sub32 read.ref 1 = read.ref - 1 :=
    sub32_of_le (by omega) (by omega)
  simp only [matchTurn, sum, limit, back]
  rcases refused with long | below
  · rw [if_pos (by omega)]
  · rw [if_pos below, ite_self]

/-- Any other match is copied. -/
theorem matchTurn_copies
    (guarded : Guarded call source run)
    (reach : call.output + text.length ≤ read.ref + 73726)
    (behind : read.ref ≤ call.output + text.length)
    (accepted : ¬ Refused call text read) :
    matchTurn strictAlign call
        { ip, op := call.output + text.length, ctrl, memory } read =
      let copied :=
        copyForward memory (read.ref - 1) (call.output + text.length)
          (3 + read.len)
      if read.ip < call.input + call.length then
        .again
          { ip := read.ip + 1
            op := call.output + (text.length + (3 + read.len))
            ctrl := (memory read.ip).toNat
            memory := copied }
      else .returns (text.length + (3 + read.len)) copied := by
  have outputLow := guarded.outputLow
  have outputEnds := guarded.outputEnds
  rw [Refused, not_or] at accepted
  have sum :
      ¬ u32 (call.output + text.length + read.len + 3) > call.opLimit := by
    rw [guarded.opLimit, u32]
    omega
  have back : ¬ sub32 read.ref 1 < call.output := by
    rw [sub32_of_le (by omega) (by omega)]
    exact accepted.2
  have value :
      call.output + text.length + 3 + read.len - call.output =
        text.length + (3 + read.len) := by
    omega
  have place :
      call.output + text.length + 3 + read.len =
        call.output + (text.length + (3 + read.len)) := by
    omega
  simp only [matchTurn, if_neg sum, if_neg back, guarded.ipLimit, value]
  rw [copyMatch_eq strictAlign _ _ (by omega) behind, place]

theorem literalTurn_refused
    (guarded : Guarded call source run)
    (inside : ip ≤ call.input + call.length)
    (room : text.length ≤ call.maxout)
    (low : ctrl < 32)
    (refused :
      call.maxout < text.length + (ctrl + 1) ∨
        call.input + call.length < ip + (ctrl + 1)) :
    literalTurn call { ip, op := call.output + text.length, ctrl, memory } =
      .returns 0 memory := by
  have outputEnds := guarded.outputEnds
  have inputEnds := guarded.inputEnds
  have opSum :
      u32 (call.output + text.length + (ctrl + 1)) =
        call.output + text.length + (ctrl + 1) := by
    rw [u32]
    omega
  have ipSum : u32 (ip + (ctrl + 1)) = ip + (ctrl + 1) := by
    rw [u32]
    omega
  simp only [literalTurn, opSum, ipSum, guarded.opLimit, guarded.ipLimit]
  rcases refused with long | beyond
  · rw [if_pos (by omega)]
  · rw [if_pos (by omega : ip + (ctrl + 1) > call.input + call.length),
      ite_self]

/-- Literals that fit are copied. -/
theorem literalTurn_copies
    (guarded : Guarded call source run)
    (fits : text.length + (ctrl + 1) ≤ call.maxout)
    (inside : ip + (ctrl + 1) ≤ call.input + call.length) :
    literalTurn call { ip, op := call.output + text.length, ctrl, memory } =
      let copied :=
        copyForward memory ip (call.output + text.length) (ctrl + 1)
      if ip + (ctrl + 1) < call.input + call.length then
        .again
          { ip := ip + (ctrl + 1) + 1
            op := call.output + (text.length + (ctrl + 1))
            ctrl := (copied (ip + (ctrl + 1))).toNat
            memory := copied }
      else .returns (text.length + (ctrl + 1)) copied := by
  have outputEnds := guarded.outputEnds
  have inputEnds := guarded.inputEnds
  have opSum :
      ¬ u32 (call.output + text.length + (ctrl + 1)) > call.opLimit := by
    rw [guarded.opLimit, u32]
    omega
  have ipSum : ¬ u32 (ip + (ctrl + 1)) > call.ipLimit := by
    rw [guarded.ipLimit, u32]
    omega
  have value :
      call.output + text.length + (ctrl + 1) - call.output =
        text.length + (ctrl + 1) := by
    omega
  simp only [literalTurn, if_neg opSum, if_neg ipSum, value]
  rw [guarded.ipLimit, Nat.add_assoc call.output]

end Turns

/-! ## Runs on any input -/

/-- What the decompressor does wherever the input is the same. -/
def Determined
    (call : Call) (source : Memory) (run : Nat) (text : List Byte)
    (outcome : Bool → Memory → Option (Nat × Memory)) : Prop :=
  ∃ value last,
    last.length ≤ call.maxout ∧ (value = 0 ∨ value = last.length) ∧
      ∀ strictAlign before memory,
        SameInput call run before source →
        Written call before memory text →
          ∃ after,
            outcome strictAlign memory = some (value, after) ∧
              Written call before after last

/-- A turn which extends the text leaves the rest to the turns behind it. -/
theorem determined_of_turn
    {level : Level} {call : Call} {source : Memory}
    {run ip ctrl codes fuel : Nat} {text longer : List Byte}
    (next : Nat)
    (room : longer.length ≤ call.maxout)
    (turned :
      ∀ strictAlign before memory,
        SameInput call run before source →
        Written call before memory text →
          ∃ copied,
            Written call before copied longer ∧
              turn strictAlign level call codes
                  { ip, op := call.output + text.length, ctrl, memory } =
                some
                  (if next < call.input + call.length then
                    .again
                      { ip := next + 1
                        op := call.output + longer.length
                        ctrl := (source next).toNat
                        memory := copied }
                  else .returns longer.length copied))
    (rest :
      next < call.input + call.length →
        Determined call source run longer fun strictAlign memory =>
          loop strictAlign level call codes fuel
            { ip := next + 1
              op := call.output + longer.length
              ctrl := (source next).toNat
              memory }) :
    Determined call source run text fun strictAlign memory =>
      loop strictAlign level call codes (fuel + 1)
        { ip, op := call.output + text.length, ctrl, memory } := by
  by_cases more : next < call.input + call.length
  · rcases rest more with ⟨value, last, bound, counted, looped⟩
    refine ⟨value, last, bound, counted, ?_⟩
    intro strictAlign before memory same written
    rcases turned strictAlign before memory same written with
      ⟨copied, made, goes⟩
    rw [if_pos more] at goes
    beta_reduce
    rw [loop, goes]
    exact looped strictAlign before copied same made
  · refine ⟨longer.length, longer, room, Or.inr rfl, ?_⟩
    intro strictAlign before memory same written
    rcases turned strictAlign before memory same written with
      ⟨copied, made, goes⟩
    rw [if_neg more] at goes
    beta_reduce
    rw [loop, goes]
    exact ⟨copied, rfl, made⟩

/-- A turn which refuses its token returns with the text so far. -/
theorem determined_of_refused
    {level : Level} {call : Call} {source : Memory}
    {run ip ctrl codes fuel : Nat} {text : List Byte}
    (room : text.length ≤ call.maxout)
    (turned :
      ∀ strictAlign before memory,
        SameInput call run before source →
        Written call before memory text →
          turn strictAlign level call codes
              { ip, op := call.output + text.length, ctrl, memory } =
            some (.returns 0 memory)) :
    Determined call source run text fun strictAlign memory =>
      loop strictAlign level call codes (fuel + 1)
        { ip, op := call.output + text.length, ctrl, memory } := by
  refine ⟨0, text, room, Or.inl rfl, ?_⟩
  intro strictAlign before memory same written
  refine ⟨memory, ?_, written⟩
  beta_reduce
  rw [loop, turned strictAlign before memory same written]

section Turn

variable
    {level : Level} {call : Call} {source : Memory}
    {run ip ctrl codes fuel : Nat} {text : List Byte}

/-- A match is refused, or it extends the text by a copy. -/
theorem determined_of_match
    (guarded : Guarded call source run)
    (begins : call.input ≤ ip)
    (inside : ip ≤ call.input + call.length)
    (room : text.length ≤ call.maxout)
    (large : 32 ≤ ctrl)
    (control : ctrl < 256)
    (enoughCodes : run ≤ codes)
    (rest :
      ∀ next longer,
        ip ≤ next → next < call.input + call.length →
          longer.length ≤ call.maxout →
            Determined call source run longer fun strictAlign memory =>
              loop strictAlign level call codes fuel
                { ip := next + 1
                  op := call.output + longer.length
                  ctrl := (source next).toNat
                  memory }) :
    Determined call source run text fun strictAlign memory =>
      loop strictAlign level call codes (fuel + 1)
        { ip, op := call.output + text.length, ctrl, memory } := by
  rcases reads_match level guarded begins inside
      (Nat.le_add_right call.output text.length) (by omega) control
      enoughCodes with
    ⟨read, further, near, len, behind, reach, reads⟩
  have apart := guarded.apart
  by_cases refused : Refused call text read
  · apply determined_of_refused room
    intro strictAlign before memory same written
    rw [turn, if_pos large,
      reads memory (sameInput_of_written guarded written room same),
      Option.map_some,
      matchTurn_refused guarded room len reach behind refused]
  · have accepted := not_or.mp refused
    have outputLow := guarded.outputLow
    have positive : 0 < call.output + text.length - (read.ref - 1) := by
      omega
    have within :
        call.output + text.length - (read.ref - 1) ≤ text.length := by
      omega
    have source_ :
        call.output + text.length -
            (call.output + text.length - (read.ref - 1)) =
          read.ref - 1 := by
      omega
    have longer := length_copyBack positive within (3 + read.len)
    have fits :
        (copyBack (call.output + text.length - (read.ref - 1))
          (3 + read.len) text).length ≤ call.maxout := by
      omega
    apply determined_of_turn read.ip fits
    · intro strictAlign before memory same written
      have agrees := sameInput_of_written guarded written room same
      have copied :=
        written.reference positive within (3 + read.len)
      rw [source_] at copied
      refine ⟨_, copied, ?_⟩
      rw [turn, if_pos large, reads memory agrees, Option.map_some,
        matchTurn_copies guarded reach behind refused, longer]
      by_cases more : read.ip < call.input + call.length
      · rw [if_pos more, if_pos more, agrees read.ip (by omega) (by omega)]
      · rw [if_neg more, if_neg more]
    · intro more
      exact rest read.ip _ (by omega) more fits

/-- Literals are refused, or they extend the text by bytes of the input. -/
theorem determined_of_literals
    (guarded : Guarded call source run)
    (begins : call.input ≤ ip)
    (inside : ip ≤ call.input + call.length)
    (room : text.length ≤ call.maxout)
    (small : ¬ 32 ≤ ctrl)
    (rest :
      ∀ next longer,
        ip ≤ next → next < call.input + call.length →
          longer.length ≤ call.maxout →
            Determined call source run longer fun strictAlign memory =>
              loop strictAlign level call codes fuel
                { ip := next + 1
                  op := call.output + longer.length
                  ctrl := (source next).toNat
                  memory }) :
    Determined call source run text fun strictAlign memory =>
      loop strictAlign level call codes (fuel + 1)
        { ip, op := call.output + text.length, ctrl, memory } := by
  have apart := guarded.apart
  have counted : (slice source ip (ctrl + 1)).length = ctrl + 1 :=
    length_slice _ _ _
  by_cases refused :
      call.maxout < text.length + (ctrl + 1) ∨
        call.input + call.length < ip + (ctrl + 1)
  · apply determined_of_refused room
    intro strictAlign before memory same written
    rw [turn, if_neg small,
      literalTurn_refused guarded inside room (by omega) refused]
  · rw [not_or] at refused
    have fits :
        (text ++ slice source ip (ctrl + 1)).length ≤ call.maxout := by
      rw [List.length_append]
      omega
    apply determined_of_turn (ip + (ctrl + 1)) fits
    · intro strictAlign before memory same written
      have agrees := sameInput_of_written guarded written room same
      have held : Holds memory ip (slice source ip (ctrl + 1)) := by
        rw [Holds, counted]
        apply slice_congr
        intro i low
        exact agrees (ip + i) (by omega) (by omega)
      have copied := written.literals held (by omega)
      have later :=
        sameInput_of_written guarded copied fits same
      rw [counted] at copied later
      refine ⟨_, copied, ?_⟩
      rw [turn, if_neg small,
        literalTurn_copies guarded (by omega) (by omega),
        List.length_append, counted]
      simp only [later (ip + (ctrl + 1)) (by omega) (by omega)]
    · intro more
      exact rest _ _ (Nat.le_add_right _ _) more fits

end Turn

/-- The loop's result depends on the input alone, by induction on the fuel. -/
theorem loop_determined
    (level : Level)
    {call : Call} {source : Memory} {run ip ctrl codes fuel : Nat}
    {text : List Byte}
    (guarded : Guarded call source run)
    (begins : call.input ≤ ip)
    (inside : ip ≤ call.input + call.length)
    (room : text.length ≤ call.maxout)
    (control : ctrl < 256)
    (enoughCodes : run ≤ codes)
    (enough : call.input + call.length < ip + fuel) :
    Determined call source run text fun strictAlign memory =>
      loop strictAlign level call codes fuel
        { ip, op := call.output + text.length, ctrl, memory } := by
  induction fuel generalizing ip ctrl text with
  | zero => omega
  | succ fuel induction =>
      have rest (next : Nat) (longer : List Byte)
          (further : ip ≤ next) (more : next < call.input + call.length)
          (fits : longer.length ≤ call.maxout) :
          Determined call source run longer fun strictAlign memory =>
            loop strictAlign level call codes fuel
              { ip := next + 1
                op := call.output + longer.length
                ctrl := (source next).toNat
                memory } :=
        induction (by omega) more fits (source next).isLt (by omega)
      by_cases large : 32 ≤ ctrl
      · exact
          determined_of_match guarded begins inside room large control
            enoughCodes rest
      · exact determined_of_literals guarded begins inside room large rest

/-- What agrees wherever the input is the same is determined as well. -/
theorem Determined.congr
    {call : Call} {source : Memory} {run : Nat} {text : List Byte}
    {outcome other : Bool → Memory → Option (Nat × Memory)}
    (determined : Determined call source run text outcome)
    (guarded : Guarded call source run)
    (room : text.length ≤ call.maxout)
    (agree :
      ∀ strictAlign memory,
        SameInput call run memory source →
          other strictAlign memory = outcome strictAlign memory) :
    Determined call source run text other := by
  rcases determined with ⟨value, last, bound, counted, runs⟩
  refine ⟨value, last, bound, counted, ?_⟩
  intro strictAlign before memory same written
  rw [agree strictAlign memory
    (sameInput_of_written guarded written room same)]
  exact runs strictAlign before memory same written

/-- The decompressor of a level, from its first control byte on. -/
theorem decompressor_determined
    (level : Level)
    {call : Call} {source : Memory} {run fuel : Nat}
    (guarded : Guarded call source run)
    (enough : call.length + run ≤ fuel) :
    Determined call source run [] fun strictAlign memory =>
      decompressor strictAlign level call fuel memory := by
  have nonempty := guarded.nonempty
  have mask :
      (source call.input).toNat &&& 31 = (source call.input).toNat % 2 ^ 5 :=
    Nat.and_two_pow_sub_one_eq_mod (source call.input).toNat 5
  have positive : 0 < run := by
    rcases guarded.breaks call.input (Nat.le_refl _)
        (Nat.le_add_right _ _) with
      ⟨i, inside, -⟩
    omega
  have looped :
      Determined call source run [] fun strictAlign memory =>
        loop strictAlign level call fuel fuel
          { ip := call.input + 1
            op := call.output + ([] : List Byte).length
            ctrl := (source call.input).toNat &&& 31
            memory } := by
    apply loop_determined level guarded
    · exact Nat.le_succ _
    · omega
    · exact Nat.zero_le _
    · omega
    · omega
    · omega
  apply looped.congr guarded (Nat.zero_le _)
  intro strictAlign memory same
  rw [decompressor, start, same call.input (Nat.le_refl _) (by omega)]
  rfl

/-- The level is found in the first byte; an unknown one is refused. -/
theorem fastlzDecompress_determined
    {call : Call} {source : Memory} {run fuel : Nat}
    (guarded : Guarded call source run)
    (enough : call.length + run ≤ fuel) :
    Determined call source run [] fun strictAlign memory =>
      fastlzDecompress strictAlign call fuel memory := by
  have nonempty := guarded.nonempty
  have first (memory : Memory) (same : SameInput call run memory source) :
      memory call.input = source call.input :=
    same call.input (Nat.le_refl _) (by omega)
  by_cases one : (source call.input).toNat >>> 5 + 1 = 1
  · apply
      (decompressor_determined .one guarded enough).congr guarded
        (Nat.zero_le _)
    intro strictAlign memory same
    simp only [fastlzDecompress, first memory same, if_pos one]
  · by_cases two : (source call.input).toNat >>> 5 + 1 = 2
    · apply
        (decompressor_determined .two guarded enough).congr guarded
          (Nat.zero_le _)
      intro strictAlign memory same
      simp only [fastlzDecompress, first memory same, if_neg one, if_pos two]
    · refine ⟨0, [], Nat.zero_le _, Or.inl rfl, ?_⟩
      intro strictAlign before memory same written
      have here :=
        first memory
          (sameInput_of_written guarded written (Nat.zero_le _) same)
      refine ⟨memory, ?_, written⟩
      simp only [fastlzDecompress, here, if_neg one, if_neg two]

theorem written_nil (call : Call) (memory : Memory) :
    Written call memory memory [] := by
  constructor
  · exact holds_nil
  · intro place outside
    rfl

/--
Whatever the input, the decompressor returns, with zero or with the length of
a text which fits into the output buffer.  Nothing but this text is written,
and it does not depend on what memory held beside the input and the `run + 3`
bytes behind it.
-/
theorem decompress_any_input
    {call : Call} {source : Memory} {run fuel : Nat}
    (guarded : Guarded call source run)
    (enough : call.length + run ≤ fuel) :
    ∃ value text,
      text.length ≤ call.maxout ∧ (value = 0 ∨ value = text.length) ∧
        ∀ strictAlign memory,
          SameInput call run memory source →
            ∃ after,
              fastlzDecompress strictAlign call fuel memory =
                  some (value, after) ∧
                Holds after call.output text ∧
                  ∀ place,
                    place < call.output ∨
                        call.output + text.length ≤ place →
                      after place = memory place := by
  rcases fastlzDecompress_determined guarded enough with
    ⟨value, text, room, counted, runs⟩
  refine ⟨value, text, room, counted, ?_⟩
  intro strictAlign memory same
  rcases runs strictAlign memory memory same (written_nil call memory) with
    ⟨after, returned, written⟩
  exact ⟨after, returned, written.holds, written.elsewhere⟩

/-- The text and the memory before it leave one memory behind it. -/
theorem Written.unique
    {call : Call} {before first second : Memory} {text : List Byte}
    (one : Written call before first text)
    (other : Written call before second text) :
    first = second := by
  funext place
  by_cases inside :
      call.output ≤ place ∧ place < call.output + text.length
  · rcases Nat.exists_eq_add_of_le inside.1 with ⟨i, rfl⟩
    have low : i < text.length := by omega
    rw [holds_iff_getElem.mp one.holds i low,
      holds_iff_getElem.mp other.holds i low]
  · rw [one.elsewhere place (by omega), other.elsewhere place (by omega)]

/-- On any input, copying words leaves what copying bytes leaves. -/
theorem wordCopies_agree
    {call : Call} {memory : Memory} {run fuel : Nat}
    (guarded : Guarded call memory run)
    (enough : call.length + run ≤ fuel) :
    fastlzDecompress false call fuel memory =
      fastlzDecompress true call fuel memory := by
  rcases fastlzDecompress_determined guarded enough with
    ⟨value, text, room, counted, runs⟩
  have same : SameInput call run memory memory := fun _ _ _ => rfl
  rcases runs false memory memory same (written_nil call memory) with
    ⟨words, wordsReturned, wordsWritten⟩
  rcases runs true memory memory same (written_nil call memory) with
    ⟨bytes, bytesReturned, bytesWritten⟩
  beta_reduce at wordsReturned bytesReturned
  rw [wordsReturned, bytesReturned,
    Written.unique wordsWritten bytesWritten]

/-- The call of the loader, for a file of four bytes. -/
def loaderCall : Call where
  input := 0x1801000
  length := 4
  output := bufferOut
  maxout := maxBuffer

/-- A literal and a match which repeats it three times. -/
def loaderMemory : Memory := fun place =>
  if 0x1801000 ≤ place then
    [0x00, 0x61, 0x20, 0x00].getD (place - 0x1801000) 0
  else 0

theorem guarded_loaderCall : Guarded loaderCall loaderMemory 1 := by
  constructor
  · decide
  · decide
  · decide
  · decide
  · right
    decide
  · intro place begins inside
    refine ⟨0, Nat.one_pos, ?_⟩
    have atInput : 0x1801000 ≤ place := begins
    have near : place - 0x1801000 ≤ 4 := Nat.sub_le_of_le_add inside
    rw [Nat.add_zero, loaderMemory, if_pos atInput]
    generalize place - 0x1801000 = k at near
    interval_cases k <;> decide

/-- A file of four bytes with a match, in the layout of the loader. -/
theorem decompress_any_input_loader :
    ∃ value text,
      text.length ≤ loaderCall.maxout ∧ (value = 0 ∨ value = text.length) ∧
        ∀ strictAlign memory,
          SameInput loaderCall 1 memory loaderMemory →
            ∃ after,
              fastlzDecompress strictAlign loaderCall 5 memory =
                  some (value, after) ∧
                Holds after loaderCall.output text ∧
                  ∀ place,
                    place < loaderCall.output ∨
                        loaderCall.output + text.length ≤ place →
                      after place = memory place :=
  decompress_any_input guarded_loaderCall (by decide)

/-- The match is copied, by words as by bytes. -/
theorem wordCopies_agree_loader :
    fastlzDecompress false loaderCall 5 loaderMemory =
        fastlzDecompress true loaderCall 5 loaderMemory ∧
      (fastlzDecompress true loaderCall 5 loaderMemory).map Prod.fst =
        some 4 :=
  ⟨wordCopies_agree guarded_loaderCall (by decide), by decide⟩

end NopOS.Lz.CorruptInput
