import NopOS.Console.Int2base

/-!
# Formatted output of the C library

`_PDCLIB_print` reads one conversion of a format and prints its argument;
`vsnprintf` and `vfprintf` print the other characters themselves.  The
arguments are the 64-bit slots of a `va_list`.
-/

namespace NopOS.Console.PrintFormat

open NopOS.Console.Strtol
open NopOS.Console.Int2base hiding Fault

/-- What can go wrong while a conversion is printed. -/
inductive Fault where
  /-- A fault of `int2base`. -/
  | number (fault : Int2base.Fault)
  /-- A character type was looked up in front of its table. -/
  | outsideTable
  /-- The value which is printed was not assigned. -/
  | noValue
  /-- The target string of a stream, which is `NULL`, was written to. -/
  | noString
  | outOfFuel
deriving DecidableEq

/-- The slots which are still to be read. -/
abbrev VaList := Nat → U64

/-- The list once `va_arg` has taken its first argument. -/
def VaList.next (arg : VaList) : VaList := fun slot => arg (slot + 1)

/-- Where characters go: to `s`, or to a stream. -/
inductive Target where
  | buffer (s : Nat → Byte)
  | stream (sent : List Byte)

/-- What lasts from one conversion to the next; `%n` adds to `stores`. -/
structure Status where
  n : U32
  i : U32
  target : Target
  arg : VaList
  stores : List (U64 × U32)

/-- The string at each address, and what is in the buffer of `int2base`. -/
structure Memory where
  strings : U64 → Text
  garbage : Nat → Byte

/-! ## Delivering characters -/

/-- A character where the status says it goes. -/
def Target.receive (target : Target) (i : U32) (character : Byte) : Target :=
  match target with
  | .buffer s => .buffer (Function.update s i.toNat character)
  | .stream sent => .stream (sent ++ [character])

/-- The macro `PUT`. -/
def put (status : Status) (character : Byte) : Status :=
  { status with
    target :=
      if status.i < status.n then status.target.receive status.i character
      else status.target
    i := status.i + 1 }

/-- The characters of a text through `PUT`. -/
def putAll (status : Status) (text : List Byte) : Status :=
  text.foldl put status

/-! ## Reading a conversion -/

/-- The flags of `E_TYPES`. -/
inductive LengthType where
  | char
  | short
  | long
  | llong
  | intmax
  | size
  | ptrdiff
  | intptr
deriving DecidableEq

/-- The flags before the specification is read. -/
def noFlags : Flags :=
  { minus := false
    plus := false
    alt := false
    space := false
    zero := false
    lower := false
    unsigned := false }

/-- The loop over the flag characters, which stops at the first other one. -/
def parseFlags : Text → Flags → Text × Flags
  | [], flags => ([], flags)
  | c :: spec, flags =>
      if c = 0x2D then parseFlags spec { flags with minus := true }
      else if c = 0x2B then parseFlags spec { flags with plus := true }
      else if c = 0x23 then parseFlags spec { flags with alt := true }
      else if c = 0x20 then parseFlags spec { flags with space := true }
      else if c = 0x30 then parseFlags spec { flags with zero := true }
      else (c :: spec, flags)

/-- `(int)strtol(spec, &spec, 10)`. -/
def readInt (spec : Text) : Except Fault (Text × U32) :=
  match strtol spec 10 with
  | none => .error .outsideTable
  | some result =>
      .ok (result.endptr.getD spec, result.value.setWidth 32)

/-- The width; a negative argument is a minus flag and its magnitude. -/
def parseWidth (spec : Text) (flags : Flags) (arg : VaList) :
    Except Fault (Text × Flags × U32 × VaList) :=
  if char spec = 0x2A then
    let width : U32 := (arg 0).setWidth 32
    if width.toInt < 0 then
      .ok (spec.tail, { flags with minus := true }, -width, arg.next)
    else .ok (spec.tail, flags, width, arg.next)
  else do
    let (spec, width) ← readInt spec
    return (spec, flags, width, arg)

/-- Without a precision `prec` stays `EOF`. -/
def parsePrec (spec : Text) (flags : Flags) (arg : VaList) :
    Except Fault (Text × Flags × U32 × VaList) :=
  if char spec = 0x2E then
    let spec := spec.tail
    -- a precision cancels the zero flag
    let flags := { flags with zero := false }
    if char spec = 0x2A then
      .ok (spec.tail, flags, (arg 0).setWidth 32, arg.next)
    else do
      let (spec, prec) ← readInt spec
      return (spec, flags, prec, arg)
  else .ok (spec, flags, -1, arg)

/-- `E_ldouble`, which `L` sets, is not in `E_TYPES`. -/
def parseLength (spec : Text) : Text × List LengthType :=
  let c := char spec
  let later := spec.tail
  if c = 0x68 then
    if char later = 0x68 then (later.tail, [.char]) else (later, [.short])
  else if c = 0x6C then
    if char later = 0x6C then (later.tail, [.llong]) else (later, [.long])
  else if c = 0x6A then (later, [.intmax])
  else if c = 0x7A then (later, [.size])
  else if c = 0x74 then (later, [.ptrdiff])
  else if c = 0x4C then (later, [])
  else (spec, [])

/-- What was read of a conversion, up to its specifier. -/
structure Parsed where
  spec : Text
  flags : Flags
  types : List LengthType
  width : U32
  prec : U32
  arg : VaList

/-- The optional parts of a specification, up to the conversion character. -/
def parse (spec : Text) (arg : VaList) : Except Fault Parsed := do
  let (spec, flags) := parseFlags spec noFlags
  let (spec, flags, width, arg) ← parseWidth spec flags arg
  let (spec, flags, prec, arg) ← parsePrec spec flags arg
  let (spec, types) := parseLength spec
  return { spec, flags, types, width, prec, arg }

/-! ## Characters and strings -/

/-- The first loop of `printstr`, from a character on. -/
def copyLoop (prec : U32) : Text → Nat → List Byte
  | [], _ => []
  | c :: str, current =>
      if prec.toInt < 0 ∨ (current : Int) < prec.toInt then
        c :: copyLoop prec str (current + 1)
      else []

/-- What `printstr` prints. -/
def printstr (str : Text) (flags : Flags) (width prec : U32) : List Byte :=
  if width = 0 ∨ flags.minus then
    let copied := copyLoop prec str 0
    copied ++ List.replicate (width.toNat - copied.length) 0x20
  else
    let len :=
      if 0 ≤ prec.toInt then min str.length prec.toInt.toNat else str.length
    let padding : U32 :=
      (BitVec.ofNat 64 width.toNat - BitVec.ofNat 64 len).setWidth 32
    List.replicate padding.toInt.toNat 0x20 ++ str.take len

/-- What `printchar` prints. -/
def printchar (chr : Byte) (flags : Flags) (width : U32) : List Byte :=
  if flags.minus then chr :: List.replicate (width.toNat - 1) 0x20
  else List.replicate (width.toNat - 1) 0x20 ++ [chr]

/-! ## Numbers -/

/-- The base and the flags of a specifier for numbers. -/
def integerKind (c : Byte) (flags : Flags) (types : List LengthType) :
    Option (Nat × Flags × List LengthType) :=
  if c = 0x64 ∨ c = 0x69 then some (10, flags, types)
  else if c = 0x6F then some (8, { flags with unsigned := true }, types)
  else if c = 0x75 then some (10, { flags with unsigned := true }, types)
  else if c = 0x78 then
    some (16, { flags with lower := true, unsigned := true }, types)
  else if c = 0x58 then some (16, { flags with unsigned := true }, types)
  else if c = 0x70 then
    some
      (16, { flags with lower := true, unsigned := true, alt := true },
        .intptr :: types)
  else none

/-- The argument of an unsigned conversion, by the flags in `E_TYPES`. -/
def unsignedValue : List LengthType → U64 → Option U64
  | [.char], slot => some ((slot.setWidth 8).setWidth 64)
  | [.short], slot => some ((slot.setWidth 16).setWidth 64)
  | [], slot => some ((slot.setWidth 32).setWidth 64)
  | [_], slot => some slot
  | _, _ => none

/-- The argument at its length, extended with its sign. -/
def signedValue : List LengthType → U64 → Option U64
  | [.char], slot => some ((slot.setWidth 8).signExtend 64)
  | [.short], slot => some ((slot.setWidth 16).signExtend 64)
  | [], slot => some ((slot.setWidth 32).signExtend 64)
  | [_], slot => some slot
  | _, _ => none

/-- What a number leaves in `s` if it reaches the end. -/
def endNumber (status : Status) : Except Fault Status :=
  if status.n ≤ status.i ∧ 0 < status.n then
    match status.target with
    | .buffer s =>
        .ok
          { status with
            target := .buffer (Function.update s (status.n - 1).toNat 0) }
    | .stream _ => .error .noString
  else .ok status

/-- The number and the blanks behind it. -/
def printInteger
    (memory : Memory) (status : Status) (value : U64) (format : Format) :
    Except Fault Status := do
  let text ← (int2base memory.garbage value format).mapError .number
  let status := putAll status text
  let status :=
    if format.flags.minus then
      putAll status
        (List.replicate (format.width.toNat - text.length) 0x20)
    else status
  endNumber status

/-! ## The functions -/

/-- The conversion specifier and the output: what follows the specifier, or
`none` for `orig_spec`. -/
def convert (memory : Memory) (parsed : Parsed) (status : Status) :
    Except Fault (Option Text × Status) :=
  let c := char parsed.spec
  let rest := parsed.spec.tail
  let flags := parsed.flags
  let status := { status with arg := parsed.arg }
  let slot := parsed.arg 0
  let taken := { status with arg := parsed.arg.next }
  if c ∈ [(0x66 : Byte), 0x46, 0x65, 0x45, 0x67, 0x47, 0x61, 0x41] then
    -- floating point conversions are not implemented
    .ok (some rest, status)
  else if c = 0x63 then
    let text := printchar (slot.setWidth 8) flags parsed.width
    .ok (some rest, putAll taken text)
  else if c = 0x73 then
    let text :=
      printstr (memory.strings slot) flags parsed.width parsed.prec
    .ok (some rest, putAll taken text)
  else if c = 0x6E then
    let stores := status.stores ++ [(slot, status.i)]
    .ok (some rest, { taken with stores := stores })
  else
    match integerKind c flags parsed.types with
    | none => .ok (none, status)
    | some (base, flags, types) =>
        let value :=
          if flags.unsigned then unsignedValue types slot
          else signedValue types slot
        let format := { flags, base, width := parsed.width, prec := parsed.prec }
        match value with
        | none => .error .noValue
        | some value => do
            let status ← printInteger memory taken value format
            return (some rest, status)

/-- `_PDCLIB_print`, with `spec` at the `%`. -/
def print (memory : Memory) (spec : Text) (status : Status) :
    Except Fault (Option Text × Status) :=
  let spec := spec.tail
  if char spec = 0x25 then .ok (some spec.tail, put status 0x25)
  else do
    let parsed ← parse spec status.arg
    convert memory parsed status

/-- A character of the format which is printed verbatim. -/
def verbatim (size : U64) (status : Status) (character : Byte) : Status :=
  match status.target with
  | .buffer s =>
      { status with
        target :=
          if status.i.toNat < size.toNat then
            .buffer (Function.update s status.i.toNat character)
          else .buffer s
        i := status.i + 1 }
  | .stream sent =>
      { status with
        target := .stream (sent ++ [character])
        i := status.i + 1 }

/-- The loop over the format. -/
def formatLoop (memory : Memory) (size : U64) :
    Nat → Text → Status → Except Fault Status
  | 0, _, _ => .error .outOfFuel
  | _ + 1, [], status => .ok status
  | fuel + 1, c :: format, status =>
      if c ≠ 0x25 then
        formatLoop memory size fuel format (verbatim size status c)
      else do
        match ← print memory (c :: format) status with
        | (none, status) =>
            formatLoop memory size fuel format (verbatim size status c)
        | (some rc, status) => formatLoop memory size fuel rc status

/-- `vsnprintf`: the string, the result and what `%n` stored. -/
def vsnprintf
    (memory : Memory) (s : Nat → Byte) (n : U64) (format : Text)
    (arg : VaList) : Except Fault ((Nat → Byte) × U32 × List (U64 × U32)) := do
  let status ←
    formatLoop memory n (format.length + 1) format
      { n := n.setWidth 32
        i := 0
        target := .buffer s
        arg
        stores := [] }
  match status.target with
  | .buffer s =>
      let s :=
        if status.i.toNat < n.toNat then Function.update s status.i.toNat 0
        else s
      return (s, status.i, status.stores)
  | .stream _ => .error .noString

/-- `_PDCLIB_vfprintf_unlocked`: what the stream was sent, and the result. -/
def vfprintf (memory : Memory) (format : Text) (arg : VaList) :
    Except Fault (List Byte × U32 × List (U64 × U32)) := do
  let status ←
    formatLoop memory 0 (format.length + 1) format
      { n := BitVec.ofNat 32 (2 ^ 32 - 1)
        i := 0
        target := .stream []
        arg
        stores := [] }
  match status.target with
  | .buffer _ => .error .noString
  | .stream sent => return (sent, status.i, status.stores)

end NopOS.Console.PrintFormat
