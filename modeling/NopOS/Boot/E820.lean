import NopOS.Lib.LittleEndian
import NopOS.Lib.RecordScan

/-!
# The e820 map

The loop of `boot16.S` which asks the BIOS for its memory map, and the reader
of `arch-setup.cc`.  A BIOS call is an answer from outside: it either writes a
descriptor at `edi` and gives back `ecx` and `ebx`, or sets the carry flag.
Addresses and sizes are those of the 32-bit registers.

The map grows towards the stack of the boot sector, which is below the boot
sector itself.  How far down `int $0x15` pushes is up to the BIOS, so that it is
a parameter of the model.  A map and a stack which would overwrite one another
are a fault.
-/

namespace NopOS.Boot.E820

open NopOS.Lib.LittleEndian
open NopOS.Lib.RecordScan

/-- A byte of memory. -/
abbrev Byte := BitVec 8

/-- A 32-bit register, or `u32`. -/
abbrev U32 := BitVec 32

/-- `u64`. -/
abbrev U64 := BitVec 64

/-- The byte at each address. -/
abbrev Memory := Nat → Byte

/-! ## The boot sector -/

/-- What `int $0x15` does. -/
inductive Answer where
  | descriptor (bytes : List Byte) (ebx : U32)
  | carry

/-- `ecx` after a descriptor was written. -/
def ecxOf (bytes : List Byte) : U32 :=
  BitVec.ofNat 32 bytes.length

/-- Memory with bytes stored from an address on. -/
def writeBytes (memory : Memory) (start : Nat) (bytes : List Byte) :
    Memory := fun address =>
  if start ≤ address then bytes.getD (address - start) (memory address)
  else memory address

/-- `mov %ecx, start`. -/
def writeLong (memory : Memory) (start : Nat) (value : U32) : Memory :=
  writeBytes memory start ((List.range 4).map (byteOf value.toNat))

/-- `e820data`. -/
def e820data : U32 := 0x2000

/-- `0x7c00`, where the boot sector is loaded and its stack begins. -/
def bootsect : Nat := 0x7c00

/-- The loop at `more_e820`, until `done_e820`, where the stack takes `pushed`
bytes below the boot sector. -/
def moreE820 (pushed : Nat) :
    List Answer → Memory → U32 → Option (Memory × U32)
  | [], _, _ => none
  | .carry :: _, memory, edi =>
      if edi.toNat + pushed ≤ bootsect then some (memory, edi + 4)
      -- the map so far reaches into the stack
      else none
  | .descriptor bytes ebx :: answers, memory, edi =>
      let edi := edi + 4
      if edi.toNat + bytes.length + pushed ≤ bootsect then
        let memory := writeBytes memory edi.toNat bytes
        let ecx := ecxOf bytes
        let memory := writeLong memory (edi - 4).toNat ecx
        let edi := edi + ecx
        if ebx = 0 then some (memory, edi)
        else moreE820 pushed answers memory edi
      -- the descriptor is written over the stack
      else none

/-- What the boot sector leaves: memory, `mb_mmap_addr`, `mb_mmap_len`. -/
structure MmapInfo where
  memory : Memory
  mmapAddr : U32
  mmapLen : U32

/-- The boot sector from `done_disk` to the store of `mb_mmap_len`. -/
def collectE820 (pushed : Nat) (answers : List Answer) (memory : Memory) :
    Option MmapInfo :=
  (moreE820 pushed answers memory e820data).map fun (memory, edi) =>
    { memory := memory
      mmapAddr := e820data
      mmapLen := edi - e820data }

/-! ## The reader -/

/-- `struct e820ent`. -/
structure E820ent where
  entSize : U32
  addr : U64
  size : U64
  type : U32
deriving DecidableEq

/-- `*static_cast<e820ent*>(p)`. -/
def entAt (buffer : Memory) (p : Nat) : E820ent where
  entSize := BitVec.ofNat 32 (littleEndian buffer p 4)
  addr := BitVec.ofNat 64 (littleEndian buffer (p + 4) 8)
  size := BitVec.ofNat 64 (littleEndian buffer (p + 12) 8)
  type := BitVec.ofNat 32 (littleEndian buffer (p + 20) 4)

/-- `ent->ent_size + 4`, computed as an `unsigned`. -/
def stride (ent : E820ent) : Nat := (ent.entSize + 4).toNat

/--
The loop of `for_each_e820_entry`, as the list of entries it calls `f` on; `p`
is counted from the start of the buffer.
-/
def forEachLoop (buffer : Memory) (size : U32) :
    Nat → Nat → Option (List E820ent)
  | 0, _ => none
  | fuel + 1, p =>
      if p < size.toNat then
        let ent := entAt buffer p
        let later := forEachLoop buffer size fuel (p + stride ent)
        if ent.type = 1 then later.map (ent :: ·) else later
      else some []

/-- `for_each_e820_entry(e820_buffer, size, f)`, as the list of entries it calls
`f` on; a size has no more turns than bytes. -/
def forEachE820Entry (buffer : Memory) (size : U32) :
    Option (List E820ent) :=
  forEachLoop buffer size (size.toNat + 1) 0

/--
The buffer of `premain`: `mb_mmap_len` bytes copied from `mb_mmap_addr` to the
stack, and what the stack holds behind them.
-/
def e820Buffer (info : MmapInfo) (stack : Memory) : Memory := fun k =>
  if k < info.mmapLen.toNat then info.memory (info.mmapAddr.toNat + k)
  else stack k

/-! ## The lists a BIOS returns -/

/-- A descriptor has at least the three fields of the standard. -/
structure Descriptor where
  bytes : List Byte
  atLeast20 : 20 ≤ bytes.length

/-- A descriptor which is not marked as the last one. -/
structure Continued extends Descriptor where
  ebx : U32
  notLast : ebx ≠ 0

/-- The two ways in which a BIOS ends its list. -/
inductive BiosList where
  | endsWithZero (earlier : List Continued) (last : Descriptor)
  | endsWithCarry (earlier : List Continued)

namespace BiosList

/-- The calls which return descriptors that are not the last. -/
def continuedAnswers (earlier : List Continued) : List Answer :=
  earlier.map fun answer => .descriptor answer.bytes answer.ebx

/-- The calls of a list, with the one that ends it. -/
def answers : BiosList → List Answer
  | endsWithZero earlier last =>
      continuedAnswers earlier ++ [.descriptor last.bytes 0]
  | endsWithCarry earlier => continuedAnswers earlier ++ [.carry]

/-- What a list describes. -/
def descriptors : BiosList → List Descriptor
  | endsWithZero earlier last =>
      earlier.map Continued.toDescriptor ++ [last]
  | endsWithCarry earlier => earlier.map Continued.toDescriptor

end BiosList

/-- The entry which a descriptor stands for. -/
def Descriptor.ent (descriptor : Descriptor) : E820ent where
  entSize := ecxOf descriptor.bytes
  addr := BitVec.ofNat 64 (littleEndian (descriptor.bytes.getD · 0) 0 8)
  size := BitVec.ofNat 64 (littleEndian (descriptor.bytes.getD · 0) 8 8)
  type := BitVec.ofNat 32 (littleEndian (descriptor.bytes.getD · 0) 16 4)

/-- Bytes which descriptors take in the map, each behind its size. -/
def mapLength (descriptors : List Descriptor) : Nat :=
  (descriptors.map fun descriptor => 4 + descriptor.bytes.length).sum

/-- The reader calls back exactly for the usable ranges, in order.  `memory` is
what was there before, `stack` what premain's stack holds. -/
def Agrees
    (pushed : Nat) (bios : BiosList) (memory stack : Memory) : Prop :=
  ∃ info,
    collectE820 pushed bios.answers memory = some info ∧
      forEachE820Entry (e820Buffer info stack) info.mmapLen =
        some
          ((bios.descriptors.map Descriptor.ent).filter
            fun ent => ent.type = 1)

/-! ## The reader is a scan -/

/-- The loop keeps the usable ones of the records it goes over. -/
theorem forEachLoop_eq
    (buffer : Memory) (size : U32) (fuel p : Nat) :
    forEachLoop buffer size fuel p =
      (scan (entAt buffer) stride size.toNat fuel p).map
        (List.filter fun ent => ent.type = 1) := by
  induction fuel generalizing p with
  | zero => rfl
  | succ fuel induction =>
      rw [forEachLoop, scan]
      by_cases inside : p < size.toNat
      · simp only [if_pos inside, induction, Option.map_map]
        by_cases usable : (entAt buffer p).type = 1
        · rw [if_pos usable]
          congr 1
          funext ents
          exact (List.filter_cons_of_pos (by simpa using usable)).symm
        · rw [if_neg usable]
          congr 1
          funext ents
          exact (List.filter_cons_of_neg (by simpa using usable)).symm
      · simp only [if_neg inside]
        rfl

/-- What the reader returns, by the records of a whole scan. -/
theorem forEachE820Entry_eq_some_iff
    {buffer : Memory} {size : U32} {ents : List E820ent} :
    forEachE820Entry buffer size = some ents ↔
      ∃ all,
        Scans (entAt buffer) stride size.toNat 0 all ∧
          all.filter (fun ent => ent.type = 1) = ents := by
  rw [forEachE820Entry, forEachLoop_eq, Option.map_eq_some_iff]
  simp only [scan_eq_some_iff_scans]

end NopOS.Boot.E820
