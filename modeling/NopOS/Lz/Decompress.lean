import NopOS.Lib.Lz77

/-!
# Decompressing the kernel image

The boot loader is a 32-bit program.  It carries the kernel as FastLZ data and
decompresses it to its place in memory with `fastlz_decompress`.  Differences
of pointers, and the sums which are compared with the end of a buffer, are
taken modulo 2 ^ 32; a pointer which steps through a buffer is a plain
address.
-/

namespace NopOS.Lz.Decompress

open NopOS.Lib.IndexedBuffer
open NopOS.Lib.Lz77

/-- A byte of memory. -/
abbrev Byte := BitVec 8

/-- The memory of the loader, by address. -/
abbrev Memory := Nat → Byte

/-- The `FASTLZ_LEVEL` a decompressor was expanded for. -/
inductive Level where
  | one
  | two
deriving DecidableEq, Repr

/-- `MAX_DISTANCE` -/
def Level.maxDistance : Level → Nat
  | .one => 8192
  | .two => 8191

/-- A sum as the loader's 32-bit program sees it. -/
def u32 (value : Nat) : Nat := value % 2 ^ 32

/-- A difference modulo 2 ^ 32. -/
def sub32 (a b : Nat) : Nat := u32 (a + 2 ^ 32 - b)

/-- The arguments of `fastlz_decompress`. -/
structure Call where
  input : Nat
  length : Nat
  output : Nat
  maxout : Nat

/-- `ip_limit`. -/
def Call.ipLimit (call : Call) : Nat := u32 (call.input + call.length)

/-- `op_limit`. -/
def Call.opLimit (call : Call) : Nat := u32 (call.output + call.maxout)

/-- The variables which live from one turn of the loop to the next. -/
structure Decoder where
  ip : Nat
  op : Nat
  ctrl : Nat
  memory : Memory

/-- How a turn of the loop ends. -/
inductive Turn where
  | again (state : Decoder)
  | returns (value : Nat) (memory : Memory)

/-- `do { code = *ip++; len += code; } while (code==255);` -/
def readCodes (memory : Memory) : Nat → Nat → Nat → Option (Nat × Nat)
  | 0, _, _ => none
  | fuel + 1, ip, len =>
      let code := (memory ip).toNat
      if code = 255 then readCodes memory fuel (ip + 1) (u32 (len + code))
      else some (ip + 1, u32 (len + code))

/-- `ip`, `len` and `ref` once a match is read. -/
structure Match where
  ip : Nat
  len : Nat
  ref : Nat

/-- The length of a match, with the bytes that follow a full control byte. -/
def readLength (level : Level) (memory : Memory) (fuel ip len : Nat) :
    Option (Nat × Nat) :=
  if len = 7 - 1 then
    match level with
    | .one => some (ip + 1, len + (memory ip).toNat)
    | .two => readCodes memory fuel ip len
  else some (ip, len)

/-- The distance of a match, near or far. -/
def readReference (level : Level) (memory : Memory) (op ofs ip len : Nat) :
    Match :=
  let code := (memory ip).toNat
  let ref := sub32 (sub32 op ofs) code
  match level with
  | .one => { ip := ip + 1, len, ref }
  | .two =>
      -- match from 16-bit distance
      if code = 255 ∧ ofs = 31 <<< 8 then
        let far := (memory (ip + 1)).toNat <<< 8 + (memory (ip + 2)).toNat
        { ip := ip + 3, len, ref := sub32 (sub32 op far) level.maxDistance }
      else { ip := ip + 1, len, ref }

/-- A match once its length and its distance are read. -/
def readMatch (level : Level) (fuel : Nat) (state : Decoder) : Option Match :=
  let len := state.ctrl >>> 5 - 1
  let ofs := (state.ctrl &&& 31) <<< 8
  (readLength level state.memory fuel state.ip len).map fun read =>
    readReference level state.memory state.op ofs read.1 read.2

/-- `for(len>>=1; len > 4; len-=4)` with its four copies, then the rest. -/
def copyWords (memory : Memory) (p q : Nat) : Nat → Memory
  | len + 5 =>
      copyWords (copyPairs memory p q 4) (p + 8) (q + 8) (len + 1)
  | len => copyPairs memory p q len

/-- The copy of a match, with or without `FASTLZ_STRICT_ALIGN`. -/
def copyMatch (strictAlign : Bool) (memory : Memory) (ref op len : Nat) :
    Memory :=
  if ref = op then
    -- optimize copy for a run
    fill (fill memory op (memory (ref - 1)) 3) (op + 3) (memory (ref - 1)) len
  else
    let start := ref - 1
    let memory := copyForward memory start op 3
    if strictAlign then copyForward memory (start + 3) (op + 3) len
    else if len % 2 = 1 then
      copyWords (copyForward memory (start + 3) (op + 3) 1)
        (start + 4) (op + 4) (len / 2)
    else copyWords memory (start + 3) (op + 3) (len / 2)

/-- A turn that copies from the output. -/
def matchTurn
    (strictAlign : Bool) (call : Call) (state : Decoder) (read : Match) :
    Turn :=
  if u32 (state.op + read.len + 3) > call.opLimit then
    .returns 0 state.memory
  else if sub32 read.ref 1 < call.output then
    .returns 0 state.memory
  else
    let memory :=
      copyMatch strictAlign state.memory read.ref state.op read.len
    let op := state.op + 3 + read.len
    if read.ip < call.ipLimit then
      .again
        { ip := read.ip + 1
          op
          ctrl := (state.memory read.ip).toNat
          memory }
    else .returns (op - call.output) memory

/-- A turn that copies literals from the input. -/
def literalTurn (call : Call) (state : Decoder) : Turn :=
  let ctrl := state.ctrl + 1
  if u32 (state.op + ctrl) > call.opLimit then
    .returns 0 state.memory
  else if u32 (state.ip + ctrl) > call.ipLimit then
    .returns 0 state.memory
  else
    let memory := copyForward state.memory state.ip state.op ctrl
    let ip := state.ip + ctrl
    let op := state.op + ctrl
    if ip < call.ipLimit then
      .again { ip := ip + 1, op, ctrl := (memory ip).toNat, memory }
    else .returns (op - call.output) memory

/-- One turn of the loop; `none` where the length codes need more fuel. -/
def turn
    (strictAlign : Bool) (level : Level) (call : Call) (fuel : Nat)
    (state : Decoder) :
    Option Turn :=
  if 32 ≤ state.ctrl then
    (readMatch level fuel state).map (matchTurn strictAlign call state)
  else some (literalTurn call state)

/-- The `do` loop, with fuel for its turns. -/
def loop
    (strictAlign : Bool) (level : Level) (call : Call) (codes : Nat) :
    Nat → Decoder → Option (Nat × Memory)
  | 0, _ => none
  | fuel + 1, state =>
      match turn strictAlign level call codes state with
      | none => none
      | some (.returns value memory) => some (value, memory)
      | some (.again state) => loop strictAlign level call codes fuel state

/-- The state before the first turn. -/
def start (call : Call) (memory : Memory) : Decoder where
  ip := call.input + 1
  op := call.output
  ctrl := (memory call.input).toNat &&& 31
  memory := memory

/-- `fastlz1_decompress` and `fastlz2_decompress` -/
def decompressor
    (strictAlign : Bool) (level : Level) (call : Call) (fuel : Nat)
    (memory : Memory) :
    Option (Nat × Memory) :=
  loop strictAlign level call fuel fuel (start call memory)

/-- `fastlz_decompress` finds the level in the first byte. -/
def fastlzDecompress
    (strictAlign : Bool) (call : Call) (fuel : Nat) (memory : Memory) :
    Option (Nat × Memory) :=
  -- magic identifier for compression level
  let level := (memory call.input).toNat >>> 5 + 1
  if level = 1 then decompressor strictAlign .one call fuel memory
  else if level = 2 then decompressor strictAlign .two call fuel memory
  else some (0, memory)

/-- `BUFFER_OUT` -/
def bufferOut : Nat := 0x200000

/-- `MAX_BUFFER` -/
def maxBuffer : Nat := 0x1600000

/-- Memory after `uncompress_loader`, compiled for i386. -/
def uncompressLoader (input length fuel : Nat) (memory : Memory) :
    Option Memory :=
  (fastlzDecompress false
    { input, length, output := bufferOut, maxout := maxBuffer }
    fuel memory).map Prod.snd

/-! ## The copy of a match -/

section Copies

/-- Two bytes at a time or one, the copy is the same. -/
theorem copyWords_eq
    {memory : Memory} {p q len : Nat}
    (apart : p + 2 ≤ q) :
    copyWords memory p q len = copyForward memory p q (2 * len) := by
  induction memory, p, q, len using copyWords.induct with
  | case1 memory p q len induction =>
      have four : 2 * (len + 5) = 2 * 4 + 2 * (len + 1) := by omega
      rw [copyWords, induction (by omega), copyPairs_eq_copyForward apart,
        four, copyForward_add]
  | case2 memory p q len few =>
      rw [copyWords, copyPairs_eq_copyForward apart]
      exact few

/-- Runs, bytes and words: each copy is the loop over single bytes. -/
theorem copyMatch_eq
    {ref op : Nat}
    (strictAlign : Bool)
    (memory : Memory)
    (len : Nat)
    (positive : 0 < ref)
    (below : ref ≤ op) :
    copyMatch strictAlign memory ref op len =
      copyForward memory (ref - 1) op (3 + len) := by
  by_cases run : ref = op
  · have before : op - 1 + 1 = op := by omega
    have single := copyForward_one memory (op - 1) (3 + len)
    rw [before] at single
    rw [copyMatch, if_pos run, run, single, fill_add]
  · rw [copyMatch, if_neg run, copyForward_add]
    cases strictAlign with
    | true => rfl
    | false =>
        have apart : ref - 1 + 3 + 2 ≤ op + 3 := by omega
        by_cases odd : len % 2 = 1
        · have halves : len = 1 + 2 * (len / 2) := by omega
          have words :=
            copyForward_add (copyForward memory (ref - 1) op 3)
              (ref - 1 + 3) (op + 3) 1 (2 * (len / 2))
          rw [← halves] at words
          simp only [Bool.false_eq_true, if_false, if_pos odd]
          rw [words, copyWords_eq (by omega)]
        · have halves : 2 * (len / 2) = len := by omega
          simp only [Bool.false_eq_true, if_false, if_neg odd]
          rw [copyWords_eq apart, halves]

end Copies

end NopOS.Lz.Decompress
