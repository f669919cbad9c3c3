import NopOS.Lib.ByteRange
import NopOS.Boot.LoaderImage

/-!
# The loop `read_disk` of the boot sector

All that the loop keeps from one turn to the next lies in the boot sector,
which the BIOS loaded: the counter, the packet of the BIOS call with the
sector to read, and the address to copy to.  The change to protected mode and
back is left out, and so is what the BIOS keeps in memory for itself.
-/

namespace NopOS.Boot.ReadDisk

open NopOS.Lib.LittleEndian
open NopOS.Lib.ByteRange
open NopOS.Boot.LoaderImage

/-- A 32-bit register. -/
abbrev U32 := BitVec 32

/-- The byte at each address. -/
abbrev Memory := Nat → Byte

/-! ## The labels -/

/-- `count32`. -/
def count32 : Nat := 0x7c10

/-- `int1342_struct`. -/
def int1342Struct : Nat := 0x7c12

/-- `lba`. -/
def lba : Nat := 0x7c1a

/-- `xfer`. -/
def xfer : Nat := 0x7c32

/-! ## The BIOS -/

/-- The packet of `int $0x13` with `ah = 0x42`. -/
structure Packet where
  size : Nat
  count : Nat
  offset : Nat
  segment : Nat
  lba : Nat

/-- The packet at `si`. -/
def readPacket (memory : Memory) (si : Nat) : Packet where
  size := littleEndian memory si 1
  count := littleEndian memory (si + 2) 2
  offset := littleEndian memory (si + 4) 2
  segment := littleEndian memory (si + 6) 2
  lba := littleEndian memory (si + 8) 8

/-- The sectors of a call. -/
structure Read where
  lba : Nat
  count : Nat
deriving DecidableEq

/-- A read which succeeds; the carry flag is set for an unknown packet. -/
def int13 (disk : Nat → Byte) (packet : Packet) (memory : Memory) :
    Option Memory :=
  if packet.size = 0x10 then
    some
      (overwrite memory (packet.segment * 16 + packet.offset)
        (packet.count * 512) (fun i => disk (packet.lba * 512 + i)))
  else none

/-! ## The loop -/

/-- `rep movsb`, with `edi` after it. -/
def repMovsb : Nat → U32 → U32 → Memory → Memory × U32
  | 0, _, edi, memory => (memory, edi)
  | ecx + 1, esi, edi, memory =>
      repMovsb ecx (esi + 1) (edi + 1)
        (Function.update memory edi.toNat (memory esi.toNat))

/-- From `mov $tmp, %esi` to `mov %edi, xfer`. -/
def copyBlock (memory : Memory) : Memory :=
  let edi := BitVec.ofNat 32 (littleEndian memory xfer 4)
  let copied := repMovsb 0x8000 (BitVec.ofNat 32 tmp) edi memory
  store copied.1 xfer 4 copied.2.toNat

/-- `addl $(0x8000 / 0x200), lba`. -/
def addLba (memory : Memory) : Memory :=
  let sum := BitVec.ofNat 32 (littleEndian memory lba 4) + (0x8000 / 0x200)
  store memory lba 4 sum.toNat

/-- `decw count32`. -/
def decCount (memory : Memory) : Memory :=
  let difference := BitVec.ofNat 16 (littleEndian memory count32 2) - 1
  store memory count32 2 difference.toNat

/-- Where the loop comes to, with the reads it made. -/
inductive Outcome where
  | doneDisk (reads : List Read) (memory : Memory)
  | doneDiskError (reads : List Read) (memory : Memory)
  | reading

/-- The loop at `read_disk`, with the reads made so far. -/
def readDisk (disk : Nat → Byte) : Nat → List Read → Memory → Outcome
  | 0, _, _ => .reading
  | fuel + 1, reads, memory =>
      let packet := readPacket memory int1342Struct
      let reads := reads ++ [⟨packet.lba, packet.count⟩]
      match int13 disk packet memory with
      | none => .doneDiskError reads memory
      | some memory =>
          let memory := decCount (addLba (copyBlock memory))
          if littleEndian memory count32 2 = 0 then .doneDisk reads memory
          else readDisk disk fuel reads memory

/-! ## The copy -/

/-- `rep movsb` copies forwards, into memory above its source. -/
theorem repMovsb_spec
    (count : Nat) (esi edi : U32) (memory : Memory)
    (below : esi.toNat + count ≤ edi.toNat)
    (inSpace : edi.toNat + count < 2 ^ 32) :
    repMovsb count esi edi memory =
      (overwrite memory edi.toNat count (fun i => memory (esi.toNat + i)),
        edi + BitVec.ofNat 32 count) := by
  induction count generalizing esi edi memory with
  | zero =>
      rw [repMovsb, overwrite_zero]
      exact congrArg (Prod.mk memory) (BitVec.add_zero edi).symm
  | succ count induction =>
      have one : (1 : U32).toNat = 1 := rfl
      have nextSource : (esi + 1).toNat = esi.toNat + 1 := by
        rw [BitVec.toNat_add, one]
        omega
      have nextTarget : (edi + 1).toNat = edi.toNat + 1 := by
        rw [BitVec.toNat_add, one]
        omega
      rw [repMovsb, induction _ _ _ (by omega) (by omega), nextSource, nextTarget]
      let source : Nat → Byte := fun i => memory (esi.toNat + i)
      let first := Function.update memory edi.toNat (source 0)
      have unread :
          overwrite first (edi.toNat + 1) count
              (fun i => first (esi.toNat + 1 + i)) =
            overwrite first (edi.toNat + 1) count
              (fun i => source (i + 1)) := by
        apply overwrite_congr
        intro i inside
        have order : esi.toNat + 1 + i = esi.toNat + (i + 1) := by omega
        show Function.update memory edi.toNat (source 0) _ = memory _
        rw [Function.update_of_ne (by omega), order]
      have bytes :
          overwrite first (edi.toNat + 1) count
              (fun i => first (esi.toNat + 1 + i)) =
            overwrite memory edi.toNat (count + 1) source :=
        unread.trans overwrite_update
      have pointer :
          edi + 1 + BitVec.ofNat 32 count = edi + BitVec.ofNat 32 (count + 1) := by
        rw [BitVec.add_assoc, Nat.add_comm count 1, BitVec.ofNat_add]
        rfl
      rw [pointer]
      exact
        congrArg (fun bytes => (bytes, edi + BitVec.ofNat 32 (count + 1)))
          bytes

/-! ## The parts of a turn -/

/-- A block is copied to its place and the pointer moves behind it. -/
theorem copyBlock_eq
    (memory : Memory) {edi : Nat} (pointer : littleEndian memory xfer 4 = edi)
    (above : tmp + 32768 ≤ edi) (inSpace : edi + 32768 < 2 ^ 32) :
    copyBlock memory =
      store (overwrite memory edi 32768 (fun i => memory (tmp + i))) xfer 4
        (edi + 32768) := by
  have source : (BitVec.ofNat 32 tmp).toNat = tmp := rfl
  have destination : (BitVec.ofNat 32 edi).toNat = edi := by
    rw [BitVec.toNat_ofNat]
    omega
  have spec :=
    repMovsb_spec 0x8000 (BitVec.ofNat 32 tmp) (BitVec.ofNat 32 edi) memory
      (by omega) (by omega)
  have after :
      (BitVec.ofNat 32 edi + BitVec.ofNat 32 0x8000).toNat = edi + 32768 := by
    rw [← BitVec.ofNat_add, BitVec.toNat_ofNat]
    omega
  rw [copyBlock, pointer]
  show
    store
        (repMovsb 0x8000 (BitVec.ofNat 32 tmp) (BitVec.ofNat 32 edi)
            memory).1
        xfer 4 (repMovsb 0x8000 _ _ memory).2.toNat = _
  rw [spec, source, destination]
  show store _ xfer 4 (BitVec.ofNat 32 edi + BitVec.ofNat 32 0x8000).toNat = _
  rw [after]

theorem addLba_eq (memory : Memory) :
    addLba memory = store memory lba 4 (littleEndian memory lba 4 + 64) := by
  have step : (0x8000 / 0x200 : U32) = BitVec.ofNat 32 64 := by decide
  rw [addLba, step, ← BitVec.ofNat_add, BitVec.toNat_ofNat]
  exact store_mod

theorem decCount_eq (memory : Memory) :
    decCount memory =
      store memory count32 2 (littleEndian memory count32 2 + 65535) := by
  have minus (value : BitVec 16) : value - 1 = value + BitVec.ofNat 16 65535 := by
    rw [BitVec.sub_eq_add_neg]
    rfl
  rw [decCount, minus, ← BitVec.ofNat_add, BitVec.toNat_ofNat]
  exact store_mod

/-! ## What holds after some turns -/

/-- The variables of the loop and the part of the disk which is in memory, after
a number of turns. -/
structure Loaded
    (disk : Nat → Byte) (blocks turns : Nat) (memory : Memory) : Prop where
  count : littleEndian memory count32 2 = (blocks - turns) % 65536
  size : littleEndian memory int1342Struct 1 = 0x10
  sectors : littleEndian memory (int1342Struct + 2) 2 = 64
  offset : littleEndian memory (int1342Struct + 4) 2 = 0
  segment : littleEndian memory (int1342Struct + 6) 2 = 0x8000
  lbaLow : littleEndian memory lba 4 = 128 + 64 * turns
  lbaHigh : littleEndian memory (lba + 4) 4 = 0
  destination : littleEndian memory xfer 4 = target + 32768 * turns
  copied : ∀ i < 32768 * turns, memory (target + i) = disk (65536 + i)

variable {disk : Nat → Byte} {blocks turns : Nat} {memory : Memory}

/-- The packet names the sectors of the next block. -/
theorem Loaded.packetLba (loaded : Loaded disk blocks turns memory) :
    (readPacket memory int1342Struct).lba = 128 + 64 * turns := by
  show littleEndian memory lba (4 + 4) = _
  rw [littleEndian_add, loaded.lbaLow, loaded.lbaHigh, Nat.mul_zero,
    Nat.add_zero]

/-- The block which is read next. -/
theorem Loaded.nextBlock (loaded : Loaded disk blocks turns memory) :
    int13 disk (readPacket memory int1342Struct) memory =
      some
        (overwrite memory tmp 32768
          (fun i => disk (65536 + 32768 * turns + i))) := by
  have size : (readPacket memory int1342Struct).size = 0x10 := loaded.size
  have count : (readPacket memory int1342Struct).count = 64 := loaded.sectors
  have offset : (readPacket memory int1342Struct).offset = 0 := loaded.offset
  have segment : (readPacket memory int1342Struct).segment = 0x8000 :=
    loaded.segment
  have first : (128 + 64 * turns) * 512 = 65536 + 32768 * turns := by omega
  rw [int13, if_pos size, loaded.packetLba, count, offset, segment, first]
  rfl

/-- The memory after a whole turn. -/
def turn (disk : Nat → Byte) (turns : Nat) (memory : Memory) : Memory :=
  decCount
    (addLba
      (copyBlock
        (overwrite memory tmp 32768
          (fun i => disk (65536 + 32768 * turns + i)))))

/-- The memory with the next block in the buffer. -/
def blockInBuffer
    (disk : Nat → Byte) (turns : Nat) (memory : Memory) : Memory :=
  overwrite memory tmp 32768 (fun i => disk (65536 + 32768 * turns + i))

/-- The memory with the next block in the buffer and in its place. -/
def blockInPlace
    (disk : Nat → Byte) (turns : Nat) (memory : Memory) : Memory :=
  overwrite (blockInBuffer disk turns memory) (target + 32768 * turns) 32768
    (fun i => blockInBuffer disk turns memory (tmp + i))

/-- The boot sector lies below the buffer and the target. -/
theorem littleEndian_blockInPlace
    {start length : Nat} (inSector : start + length ≤ 0x7e00) :
    littleEndian (blockInPlace disk turns memory) start length =
      littleEndian memory start length := by
  have tmpValue : tmp = 0x80000 := rfl
  have targetValue : target = 0x1800000 := rfl
  rw [blockInPlace, blockInBuffer,
    littleEndian_overwrite_of_apart (Or.inl (by omega)),
    littleEndian_overwrite_of_apart (Or.inl (by omega))]

/-- A turn loads one block more. -/
theorem Loaded.copied_next (loaded : Loaded disk blocks turns memory) :
    ∀ i < 32768 * (turns + 1),
      blockInPlace disk turns memory (target + i) = disk (65536 + i) := by
  have tmpValue : tmp = 0x80000 := rfl
  have targetValue : target = 0x1800000 := rfl
  intro i inside
  by_cases done : i < 32768 * turns
  · have kept :
        blockInPlace disk turns memory (target + i) =
          blockInBuffer disk turns memory (target + i) :=
      overwrite_outside (Or.inl (by omega))
    have unread :
        blockInBuffer disk turns memory (target + i) = memory (target + i) :=
      overwrite_outside (Or.inr (by omega))
    rw [kept, unread]
    exact loaded.copied i done
  · -- the block of this turn
    obtain ⟨j, rfl⟩ := Nat.exists_eq_add_of_le (Nat.le_of_not_lt done)
    have inBlock : j < 32768 := by omega
    have moved :
        blockInPlace disk turns memory (target + 32768 * turns + j) =
          blockInBuffer disk turns memory (tmp + j) :=
      overwrite_inside inBlock
    have read :
        blockInBuffer disk turns memory (tmp + j) =
          disk (65536 + 32768 * turns + j) :=
      overwrite_inside inBlock
    rw [← Nat.add_assoc, moved, read, Nat.add_assoc]

/-- What a turn writes after the block was copied. -/
theorem Loaded.turn_eq
    (loaded : Loaded disk blocks turns memory) (few : turns < 65536) :
    turn disk turns memory =
      decCount
        (addLba
          (store (blockInPlace disk turns memory) xfer 4
            (target + 32768 * turns + 32768))) := by
  have tmpValue : tmp = 0x80000 := rfl
  have targetValue : target = 0x1800000 := rfl
  have xferValue : xfer = 0x7c32 := rfl
  have pointer :
      littleEndian (blockInBuffer disk turns memory) xfer 4 =
        target + 32768 * turns := by
    rw [blockInBuffer, littleEndian_overwrite_of_apart (Or.inl (by omega))]
    exact loaded.destination
  rw [turn, ← blockInBuffer,
    copyBlock_eq _ pointer (by omega) (by omega), ← blockInPlace]

/-- One turn copies one block further. -/
theorem Loaded.next
    (loaded : Loaded disk blocks turns memory) (more : turns < blocks)
    (few : blocks ≤ 65536) :
    Loaded disk blocks (turns + 1) (turn disk turns memory) := by
  have targetValue : target = 0x1800000 := rfl
  have xferValue : xfer = 0x7c32 := rfl
  have lbaValue : lba = 0x7c1a := rfl
  have countValue : count32 = 0x7c10 := rfl
  let block := blockInPlace disk turns memory
  let copied := store block xfer 4 (target + 32768 * turns + 32768)
  let moved :=
    store copied lba 4 (littleEndian copied lba 4 + 64)
  let counted :=
    store moved count32 2 (littleEndian moved count32 2 + 65535)
  have whole : turn disk turns memory = counted := by
    rw [loaded.turn_eq (by omega), addLba_eq, decCount_eq]
  have sector {start length : Nat} (inSector : start + length ≤ 0x7e00) :
      littleEndian block start length = littleEndian memory start length :=
    littleEndian_blockInPlace inSector
  have beside {start length : Nat} (afterLba : lba + 4 ≤ start)
      (beforeXfer : start + length ≤ xfer) :
      littleEndian counted start length = littleEndian memory start length := by
    rw [littleEndian_store_of_apart (Or.inr (by omega)),
      littleEndian_store_of_apart (Or.inr (by omega)),
      littleEndian_store_of_apart (Or.inl (by omega)), sector (by omega)]
  have between {start length : Nat} (afterCount : count32 + 2 ≤ start)
      (beforeLba : start + length ≤ lba) :
      littleEndian counted start length = littleEndian memory start length := by
    rw [littleEndian_store_of_apart (Or.inr (by omega)),
      littleEndian_store_of_apart (Or.inl (by omega)),
      littleEndian_store_of_apart (Or.inl (by omega)), sector (by omega)]
  rw [whole]
  constructor
  · have before : littleEndian moved count32 2 = (blocks - turns) % 65536 := by
      rw [littleEndian_store_of_apart (by decide),
        littleEndian_store_of_apart (by decide), sector (by decide)]
      exact loaded.count
    have bytes : 256 ^ 2 = 65536 := rfl
    rw [littleEndian_store, before, bytes]
    omega
  · exact (between (by decide) (by decide)).trans loaded.size
  · exact (between (by decide) (by decide)).trans loaded.sectors
  · exact (between (by decide) (by decide)).trans loaded.offset
  · exact (between (by decide) (by decide)).trans loaded.segment
  · have before : littleEndian copied lba 4 = 128 + 64 * turns := by
      rw [littleEndian_store_of_apart (by decide), sector (by decide)]
      exact loaded.lbaLow
    have bytes : 256 ^ 4 = 2 ^ 32 := rfl
    rw [littleEndian_store_of_apart (by decide), littleEndian_store, before,
      bytes]
    omega
  · exact (beside (by decide) (by decide)).trans loaded.lbaHigh
  · have bytes : 256 ^ 4 = 2 ^ 32 := rfl
    rw [littleEndian_store_of_apart (by decide),
      littleEndian_store_of_apart (by decide), littleEndian_store, bytes]
    omega
  · intro i inside
    calc
      counted (target + i) = moved (target + i) :=
        store_outside (Or.inr (by omega))
      _ = copied (target + i) := store_outside (Or.inr (by omega))
      _ = block (target + i) := store_outside (Or.inr (by omega))
      _ = disk (65536 + i) := loaded.copied_next i inside

/-! ## The whole loop -/

/-- The sectors of a turn. -/
def readOf (turns : Nat) : Read where
  lba := 128 + 64 * turns
  count := 64

/-- One turn, which is the last one for the last block. -/
theorem Loaded.oneTurn
    (loaded : Loaded disk blocks turns memory) (more : turns < blocks)
    (few : blocks ≤ 65536) (fuel : Nat) (reads : List Read) :
    readDisk disk (fuel + 1) reads memory =
      if turns + 1 = blocks then
        .doneDisk (reads ++ [readOf turns]) (turn disk turns memory)
      else
        readDisk disk fuel (reads ++ [readOf turns])
          (turn disk turns memory) := by
  have sectors : (readPacket memory int1342Struct).count = 64 :=
    loaded.sectors
  have count := (loaded.next more few).count
  rw [readDisk, loaded.nextBlock, loaded.packetLba, sectors]
  show
    (if littleEndian (turn disk turns memory) count32 2 = 0 then
        Outcome.doneDisk (reads ++ [readOf turns]) (turn disk turns memory)
      else
        readDisk disk fuel (reads ++ [readOf turns])
          (turn disk turns memory)) = _
  rw [count]
  by_cases last : turns + 1 = blocks
  · rw [if_pos last, if_pos (by omega)]
  · rw [if_neg last, if_neg (by omega)]

/-- The turns that are left load the rest, by induction on their number. -/
theorem Loaded.all
    {left fuel : Nat} (reads : List Read)
    (loaded : Loaded disk blocks turns memory)
    (rest : turns + left + 1 = blocks) (few : blocks ≤ 65536)
    (enough : left < fuel) :
    ∃ later final,
      readDisk disk fuel reads memory = .doneDisk (reads ++ later) final ∧
        later.length = left + 1 ∧
        (∀ read ∈ later, read.lba + read.count ≤ 128 + 64 * blocks) ∧
        Loaded disk blocks blocks final := by
  have more : turns < blocks := by omega
  have inImage : (readOf turns).lba + (readOf turns).count ≤ 128 + 64 * blocks := by
    show 128 + 64 * turns + 64 ≤ _
    omega
  have next := loaded.next more few
  induction left generalizing turns fuel reads memory with
  | zero =>
      cases fuel with
      | zero => exact absurd enough (Nat.not_lt_zero 0)
      | succ fuel =>
          refine ⟨[readOf turns], turn disk turns memory, ?_, rfl, ?_, ?_⟩
          · rw [loaded.oneTurn more few, if_pos rest]
          · intro read isRead
            rw [List.mem_singleton.1 isRead]
            exact inImage
          · have last : turns + 1 = blocks := rest
            rw [last] at next
            exact next
  | succ left induction =>
      cases fuel with
      | zero => exact absurd enough (Nat.not_lt_zero _)
      | succ fuel =>
          have notLast : turns + 1 ≠ blocks := by omega
          have nextMore : turns + 1 < blocks := by omega
          have nextRest : turns + 1 + left + 1 = blocks := by omega
          have nextEnough : left < fuel := by omega
          have nextInImage :
              (readOf (turns + 1)).lba + (readOf (turns + 1)).count ≤
                128 + 64 * blocks := by
            show 128 + 64 * (turns + 1) + 64 ≤ _
            omega
          rcases
              induction (reads ++ [readOf turns]) next nextRest nextEnough
                nextMore nextInImage (next.next nextMore few) with
            ⟨later, final, done, number, inside, loadedAll⟩
          refine ⟨readOf turns :: later, final, ?_, ?_, ?_, loadedAll⟩
          · rw [loaded.oneTurn more few, if_neg notLast, done,
              List.append_assoc]
            rfl
          · rw [List.length_cons, number]
          · intro read isRead
            cases isRead with
            | head => exact inImage
            | tail _ isLater => exact inside read isLater

/-! ## The boot sector which is loaded -/

section Loading

variable {code : BootCode} {elf : List Byte}

end Loading

end NopOS.Boot.ReadDisk
