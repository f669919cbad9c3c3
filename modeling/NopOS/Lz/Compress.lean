import NopOS.Lz.TokenFormat

/-!
# Compressing the kernel image

`lz` compresses the kernel on the build host with `fastlz_compress`.  The
input and the output are buffers with indices from 0; what stands behind the
input is read by the hash function and must not matter.  Positions in the
hash table are indices of the input.
-/

namespace NopOS.Lz.Compress

open NopOS.Lib.IndexedBuffer
open NopOS.Lib.Lz77
open NopOS.Lz.Decompress
open NopOS.Lz.TokenFormat

/-- `MAX_COPY` -/
def maxCopy : Nat := 32

/-- `MAX_LEN` -/
def maxLen : Nat := 264

/-- `MAX_FARDISTANCE` -/
def maxFardistance : Nat := 65535 + Level.two.maxDistance - 1

/-- `HASH_LOG` -/
def hashLog : Nat := 13

/-- `FASTLZ_READU16` -/
def readU16 (input : Memory) (p : Nat) : Nat :=
  (input p).toNat ||| (input (p + 1)).toNat <<< 8

/-- `HASH_FUNCTION` of three bytes. -/
def hashFunction (input : Memory) (p : Nat) : Nat :=
  let v := readU16 input p
  (v ^^^ (readU16 input (p + 1) ^^^ v >>> (16 - hashLog))) &&&
    (1 <<< hashLog - 1)

/-- The variables of the compressor that live from one turn of its loop to the
next. -/
structure Compressor where
  ip : Nat
  copy : Nat
  htab : Nat → Nat
  op : Nat
  output : Memory

/-- `*op++ = value` -/
def put (state : Compressor) (value : Byte) : Compressor :=
  { state with
    op := state.op + 1
    output := Function.update state.output state.op value }

/-- Bytes written one after another. -/
def putAll (bytes : List Byte) (state : Compressor) : Compressor :=
  bytes.foldl put state

/-- `*op++ = *ip++; copy++;` and a new copy count where this one is full. -/
def putLiteral (input : Memory) (state : Compressor) : Compressor :=
  let state := put state (input state.ip)
  let state := { state with ip := state.ip + 1, copy := state.copy + 1 }
  if state.copy = maxCopy then
    put { state with copy := 0 } (byte (maxCopy - 1))
  else state

/-- Adjust the copy count, or go back to overwrite it. -/
def closeLiterals (state : Compressor) : Compressor :=
  if state.copy ≠ 0 then
    -- copy is biased, '0' means 1 byte copy
    { state with
      output :=
        Function.update state.output (state.op - state.copy - 1)
          (byte (state.copy - 1)) }
  else { state with op := state.op - 1 }

/-! ## Comparing -/

/-- `while(ip < ip_bound) if(*ref++ != x) break; else ip++;` -/
def runEnd (input : Memory) (x : Byte) : Nat → Nat → Nat → Nat
  | 0, _, ip => ip
  | left + 1, ref, ip =>
      if input ref ≠ x then ip else runEnd input x left (ref + 1) (ip + 1)

/-- `if(*ref++ != *ip++) break;` a number of times: did it break, and `ip`. -/
def compareTimes (input : Memory) : Nat → Nat → Nat → Bool × Nat
  | 0, _, ip => (false, ip)
  | left + 1, ref, ip =>
      if input ref ≠ input ip then (true, ip + 1)
      else compareTimes input left (ref + 1) (ip + 1)

/-- `ip` behind the comparison; `distance` is biased. -/
def matchEnd (input : Memory) (length distance ref ip : Nat) : Nat :=
  let ipBound := length - 2
  if distance = 0 then
    -- zero distance means a run
    runEnd input (input (ip - 1)) (ipBound - ip) ref ip
  else
    let first := compareTimes input 8 ref ip
    if first.1 then first.2
    else (compareTimes input (ipBound - first.2) (ref + 8) first.2).2

/-! ## Writing a match -/

/-- `for(len-=7; len >= 255; len-= 255) *op++ = 255; *op++ = len;` -/
def putCodes (len : Nat) (state : Compressor) : Compressor :=
  if 255 ≤ len then putCodes (len - 255) (put state (byte 255))
  else put state (byte len)
termination_by len

/-- The branch of `FASTLZ_LEVEL==2`; `distance` is biased. -/
def putMatch2 (distance len : Nat) (state : Compressor) : Compressor :=
  if distance < Level.two.maxDistance then
    if len < 7 then
      putAll [byte (len <<< 5 + distance >>> 8), byte (distance &&& 255)]
        state
    else
      let state := put state (byte (7 <<< 5 + distance >>> 8))
      put (putCodes (len - 7) state) (byte (distance &&& 255))
  else
    let distance := distance - Level.two.maxDistance
    if len < 7 then
      putAll
        [byte (len <<< 5 + 31), byte 255, byte (distance >>> 8),
          byte (distance &&& 255)]
        state
    else
      let state := put state (byte (7 <<< 5 + 31))
      putAll [byte 255, byte (distance >>> 8), byte (distance &&& 255)]
        (putCodes (len - 7) state)

/-- The branch of `FASTLZ_LEVEL==1`, which writes long matches in parts. -/
def putMatch1 (distance len : Nat) (state : Compressor) : Compressor :=
  if len > maxLen - 2 then
    putMatch1 distance (len - (maxLen - 2))
      (putAll
        [byte (7 <<< 5 + distance >>> 8), byte (maxLen - 2 - 7 - 2),
          byte (distance &&& 255)]
        state)
  else if len < 7 then
    putAll [byte (len <<< 5 + distance >>> 8), byte (distance &&& 255)] state
  else
    putAll
      [byte (7 <<< 5 + distance >>> 8), byte (len - 7),
        byte (distance &&& 255)]
      state
termination_by len
decreasing_by
  rw [maxLen] at *
  omega

/-- The bytes of a match, by the level. -/
def putMatch : Level → Nat → Nat → Compressor → Compressor
  | .one => putMatch1
  | .two => putMatch2

/-! ## The main loop -/

/-- From `match:` on, where `len` bytes at `anchor` equal those before `ref`. -/
def takeMatch
    (level : Level) (input : Memory) (length ref distance len : Nat)
    (state : Compressor) :
    Compressor :=
  let anchor := state.ip
  -- distance is biased
  let distance := distance - 1
  let ip := matchEnd input length distance ref (anchor + len) - 3
  let state := { closeLiterals state with copy := 0 }
  let state := putMatch level distance (ip - anchor) state
  -- update the hash at match boundary
  let htab := Function.update state.htab (hashFunction input ip) ip
  let htab := Function.update htab (hashFunction input (ip + 1)) (ip + 1)
  put { state with ip := ip + 2, htab } (byte (maxCopy - 1))

/-- `flzuint32 distance = anchor - ref` -/
def distanceTo (anchor ref : Nat) : Nat := sub32 anchor ref

/-- The distances that the level does not encode. -/
def tooFar : Level → Nat → Bool
  | .one, distance => Level.one.maxDistance ≤ distance
  | .two, distance => maxFardistance ≤ distance

/-- A turn of the main loop: a run, a match that the hash table finds, or a
literal. -/
def turn
    (level : Level) (input : Memory) (length : Nat) (state : Compressor) :
    Compressor :=
  let anchor := state.ip
  -- check for a run
  if level = .two ∧ input anchor = input (anchor - 1) ∧
      readU16 input (anchor - 1) = readU16 input (anchor + 1) then
    takeMatch level input length (anchor - 1 + 3) 1 3 state
  else
    let hval := hashFunction input anchor
    let ref := state.htab hval
    let distance := distanceTo anchor ref
    let state :=
      { state with htab := Function.update state.htab hval anchor }
    -- is this a match? check the first 3 bytes
    if distance = 0 ∨ tooFar level distance ∨
        (compareTimes input 3 ref anchor).1 then
      putLiteral input state
    else if level = .two ∧ Level.two.maxDistance ≤ distance then
      -- far, needs at least 5-byte match
      if (compareTimes input 2 (ref + 3) (anchor + 3)).1 then
        putLiteral input state
      else takeMatch level input length (ref + 5) distance 5 state
    else takeMatch level input length (ref + 3) distance 3 state

/-- `while(ip < ip_limit)` -/
def mainLoop (level : Level) (input : Memory) (length : Nat) :
    Nat → Compressor → Option Compressor
  | 0, _ => none
  | fuel + 1, state =>
      if state.ip + 12 < length then
        mainLoop level input length fuel (turn level input length state)
      else some state

/-- The literals that are left at the end. -/
def putLiterals (input : Memory) : Nat → Compressor → Compressor
  | 0, state => state
  | left + 1, state => putLiterals input left (putLiteral input state)

/-- We start with a literal copy of two bytes. -/
def begin (input output : Memory) : Compressor :=
  let state : Compressor :=
    { ip := 0, copy := 2, htab := fun _ => 0, op := 0, output }
  { putAll [byte (maxCopy - 1), input 0, input 1] state with ip := 2 }

/-- The left-over as literal copy, and the last copy count. -/
def finish (input : Memory) (length : Nat) (state : Compressor) :
    Compressor :=
  closeLiterals (putLiterals input (length - state.ip) state)

/-- The marker for fastlz2. -/
def marked (level : Level) (output : Memory) : Memory :=
  match level with
  | .one => output
  | .two =>
      Function.update output 0 (byte ((output 0).toNat ||| 1 <<< 5))

/-- `fastlz1_compress` and `fastlz2_compress`: the size, and the output. -/
def compressor
    (level : Level) (input : Memory) (length : Nat) (output : Memory) :
    Option (Nat × Memory) :=
  if length < 4 then
    if length = 0 then some (0, output)
    else
      -- create literal copy only
      let state : Compressor :=
        { ip := 0, copy := 0, htab := fun _ => 0, op := 0, output }
      let made :=
        putAll (byte (length - 1) :: slice input 0 length) state
      some (length + 1, made.output)
  else
    (mainLoop level input length length (begin input output)).map fun state =>
      let made := finish input length state
      (made.op, marked level made.output)

/-- `fastlz_compress` takes its level from the length of the input. -/
def fastlzCompress (input : Memory) (length : Nat) (output : Memory) :
    Option (Nat × Memory) :=
  -- for short block, choose fastlz1
  if length < 65536 then compressor .one input length output
  else compressor .two input length output

/-- `fastlz_compress_level` writes nothing at a level it does not know. -/
def fastlzCompressLevel
    (level : Nat) (input : Memory) (length : Nat) (output : Memory) :
    Option (Nat × Memory) :=
  if level = 1 then compressor .one input length output
  else if level = 2 then compressor .two input length output
  else some (0, output)

/-- The bytes of a file in a buffer, with what stands behind it. -/
def bufferOf (file : List Byte) (behind : Memory) : Memory := fun i =>
  (file[i]?).getD (behind i)

/-- The file `lz` writes, from a kernel and two fresh buffers. -/
def lz (kernel : List Byte) (behind output : Memory) : Option (List Byte) :=
  (fastlzCompress (bufferOf kernel behind) kernel.length output).map
    fun made => slice made.2 0 made.1

end NopOS.Lz.Compress
