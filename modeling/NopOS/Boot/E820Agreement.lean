import NopOS.Boot.E820

/-!
# Agreement of the boot sector and the reader on the e820 map

The records which the boot sector writes form a chain for the reader's scan, if
they all fit below the stack of the boot sector.
After a list which ends with `ebx = 0` the chain ends at the limit.  After one
which ends with the carry flag the limit is four bytes behind the chain,
because `edi` was already advanced for a descriptor which did not come, and
the scan goes on into whatever is there.
-/

namespace NopOS.Boot.E820Agreement

open NopOS.Lib.LittleEndian
open NopOS.Lib.RecordScan
open NopOS.Boot.E820

/-! ## One record -/

section Writes

variable {memory : Memory} {start address : Nat} {bytes : List Byte}

theorem writeBytes_outside
    (outside : address < start ∨ start + bytes.length ≤ address) :
    writeBytes memory start bytes address = memory address := by
  rw [writeBytes]
  split
  · rw [List.getD_eq_getElem?_getD,
      List.getElem?_eq_none (by omega), Option.getD_none]
  · rfl

theorem writeBytes_inside {i : Nat} (inside : i < bytes.length) :
    writeBytes memory start bytes (start + i) = bytes.getD i 0 := by
  rw [writeBytes, if_pos (Nat.le_add_right _ _), Nat.add_sub_cancel_left]
  simp only [List.getD_eq_getElem?_getD, List.getElem?_eq_getElem inside,
    Option.getD_some]

theorem writeLong_inside {value : U32} {i : Nat} (inside : i < 4) :
    writeLong memory start value (start + i) = byteOf value.toNat i := by
  have length : i < ((List.range 4).map (byteOf value.toNat)).length := by
    simpa using inside
  rw [writeLong, writeBytes_inside length, List.getD_eq_getElem?_getD,
    List.getElem?_eq_getElem length, Option.getD_some, List.getElem_map,
    List.getElem_range]

theorem writeLong_outside
    {value : U32} (outside : address < start ∨ start + 4 ≤ address) :
    writeLong memory start value address = memory address :=
  writeBytes_outside (by simpa using outside)

end Writes

/-- A descriptor at `p + 4` behind its size. -/
def storeOne (memory : Memory) (p : Nat) (bytes : List Byte) : Memory :=
  writeLong (writeBytes memory (p + 4) bytes) p (ecxOf bytes)

/-- Descriptors one behind the other. -/
def store (memory : Memory) (p : Nat) : List Descriptor → Memory
  | [] => memory
  | descriptor :: descriptors =>
      store (storeOne memory p descriptor.bytes)
        (p + (4 + descriptor.bytes.length)) descriptors

section Store

variable {memory : Memory} {p address : Nat} {bytes : List Byte}

theorem storeOne_outside
    (outside : address < p ∨ p + (4 + bytes.length) ≤ address) :
    storeOne memory p bytes address = memory address := by
  rw [storeOne, writeLong_outside (by omega), writeBytes_outside (by omega)]

theorem storeOne_size
    (short : bytes.length < 2 ^ 32) {i : Nat} (inside : i < 4) :
    storeOne memory p bytes (p + i) = byteOf bytes.length i := by
  rw [storeOne, writeLong_inside inside, ecxOf, BitVec.toNat_ofNat,
    Nat.mod_eq_of_lt short]

theorem storeOne_bytes {i : Nat} (inside : i < bytes.length) :
    storeOne memory p bytes (p + 4 + i) = bytes.getD i 0 := by
  rw [storeOne, writeLong_outside (by omega), writeBytes_inside inside]

theorem mapLength_cons
    (descriptor : Descriptor) (descriptors : List Descriptor) :
    mapLength (descriptor :: descriptors) =
      4 + descriptor.bytes.length + mapLength descriptors := by
  simp [mapLength]

theorem mapLength_nil : mapLength [] = 0 := rfl

/-- The map is written where it belongs and nowhere else. -/
theorem store_outside
    {descriptors : List Descriptor}
    (outside : address < p ∨ p + mapLength descriptors ≤ address) :
    store memory p descriptors address = memory address := by
  induction descriptors generalizing memory p with
  | nil => rfl
  | cons descriptor descriptors induction =>
      rw [mapLength_cons] at outside
      rw [store, induction (by omega), storeOne_outside (by omega)]

end Store

/-! ## What the boot sector writes -/

theorem ofNat_add_ecxOf (p : Nat) (bytes : List Byte) :
    BitVec.ofNat 32 p + 4 + ecxOf bytes =
      BitVec.ofNat 32 (p + (4 + bytes.length)) := by
  apply BitVec.eq_of_toNat_eq
  have four : (4 : U32).toNat = 4 := rfl
  simp only [ecxOf, BitVec.toNat_add, BitVec.toNat_ofNat, four]
  omega

/-- One turn of the loop below the stack. -/
theorem moreE820_descriptor
    {pushed : Nat} (answers : List Answer) (memory : Memory) {p : Nat}
    {bytes : List Byte} (ebx : U32) (below : p ≤ bootsect) :
    moreE820 pushed (.descriptor bytes ebx :: answers) memory
        (BitVec.ofNat 32 p) =
      if p + (4 + bytes.length) + pushed ≤ bootsect then
        if ebx = 0 then
          some (storeOne memory p bytes,
            BitVec.ofNat 32 (p + (4 + bytes.length)))
        else
          moreE820 pushed answers (storeOne memory p bytes)
            (BitVec.ofNat 32 (p + (4 + bytes.length)))
      else none := by
  have top : bootsect = 0x7c00 := rfl
  have advanced : (BitVec.ofNat 32 p + 4).toNat = p + 4 := by
    have four : (4 : U32).toNat = 4 := rfl
    simp only [BitVec.toNat_add, BitVec.toNat_ofNat, four]
    omega
  have back : (BitVec.ofNat 32 p + 4 - 4).toNat = p := by
    rw [BitVec.add_sub_cancel, BitVec.toNat_ofNat]
    omega
  rw [moreE820]
  simp only [advanced, back, ofNat_add_ecxOf, storeOne, Nat.add_assoc]

/-- Bytes by which `edi` is ahead of the map when the loop ends. -/
def BiosList.ahead : BiosList → Nat
  | .endsWithZero _ _ => 0
  | .endsWithCarry _ => 4

theorem ofNat_sub_e820data {length : Nat} (room : 0x2000 + length < 2 ^ 32) :
    (BitVec.ofNat 32 (0x2000 + length) - e820data).toNat = length := by
  have base : e820data.toNat = 0x2000 := rfl
  simp only [BitVec.toNat_sub, BitVec.toNat_ofNat, base]
  omega

/-- The map fits between `e820data` and the stack of the boot sector. -/
def Fits (pushed : Nat) (bios : BiosList) : Prop :=
  0x2000 + mapLength bios.descriptors + pushed ≤ bootsect

instance (pushed : Nat) (bios : BiosList) : Decidable (Fits pushed bios) :=
  inferInstanceAs (Decidable (_ ≤ _))

/-- Continued descriptors in front of what a loop does keep its form: it stores
the descriptors one behind the other, as long as they fit. -/
theorem moreE820_continued
    {pushed ahead : Nat} {answers : List Answer} {last : List Descriptor}
    (ends :
      ∀ (memory : Memory) {p : Nat}, p ≤ bootsect →
        moreE820 pushed answers memory (BitVec.ofNat 32 p) =
          if p + mapLength last + pushed ≤ bootsect then
            some (store memory p last,
              BitVec.ofNat 32 (p + mapLength last + ahead))
          else none)
    (earlier : List Continued) (memory : Memory) {p : Nat}
    (below : p ≤ bootsect) :
    moreE820 pushed (BiosList.continuedAnswers earlier ++ answers) memory
        (BitVec.ofNat 32 p) =
      if p + mapLength (earlier.map Continued.toDescriptor ++ last) +
          pushed ≤ bootsect then
        some
          (store memory p (earlier.map Continued.toDescriptor ++ last),
            BitVec.ofNat 32
              (p + mapLength (earlier.map Continued.toDescriptor ++ last) +
                ahead))
      else none := by
  induction earlier generalizing memory p with
  | nil => exact ends memory below
  | cons answer earlier induction =>
      have longer :
          p + mapLength
              ((answer :: earlier).map Continued.toDescriptor ++ last) =
            p + (4 + answer.bytes.length) +
              mapLength (earlier.map Continued.toDescriptor ++ last) := by
        rw [List.map_cons, List.cons_append, mapLength_cons, Nat.add_assoc p]
      change
        moreE820 pushed
            (.descriptor answer.bytes answer.ebx ::
              (BiosList.continuedAnswers earlier ++ answers))
            memory (BitVec.ofNat 32 p) = _
      rw [moreE820_descriptor _ _ _ below, longer]
      by_cases first : p + (4 + answer.bytes.length) + pushed ≤ bootsect
      · rw [if_pos first, if_neg answer.notLast, induction _ (by omega)]
        rfl
      · rw [if_neg first, if_neg (by omega)]

/-- The loop stores all descriptors if they fit, and otherwise meets the
stack. -/
theorem moreE820_answers
    (pushed : Nat) (bios : BiosList) (memory : Memory) {p : Nat}
    (below : p ≤ bootsect) :
    moreE820 pushed bios.answers memory (BitVec.ofNat 32 p) =
      if p + mapLength bios.descriptors + pushed ≤ bootsect then
        some (store memory p bios.descriptors,
          BitVec.ofNat 32
            (p + mapLength bios.descriptors + BiosList.ahead bios))
      else none := by
  have top : bootsect = 0x7c00 := rfl
  cases bios with
  | endsWithZero earlier last =>
      refine moreE820_continued ?_ earlier memory below
      intro memory p below
      rw [moreE820_descriptor _ _ _ below, if_pos rfl]
      rfl
  | endsWithCarry earlier =>
      have ends (memory : Memory) {p : Nat} (below : p ≤ bootsect) :
          moreE820 pushed [.carry] memory (BitVec.ofNat 32 p) =
            if p + mapLength [] + pushed ≤ bootsect then
              some (store memory p [],
                BitVec.ofNat 32 (p + mapLength [] + 4))
            else none := by
        have edi : (BitVec.ofNat 32 p).toNat = p := by
          rw [BitVec.toNat_ofNat]
          omega
        rw [moreE820, edi, mapLength_nil, Nat.add_zero, BitVec.ofNat_add]
        rfl
      have stored := moreE820_continued ends earlier memory below
      rw [List.append_nil] at stored
      exact stored

/-- What the boot sector leaves of a map which fits. -/
theorem collectE820_of_fits
    {pushed : Nat} {bios : BiosList} (memory : Memory)
    (fits : Fits pushed bios) :
    ∃ info,
      collectE820 pushed bios.answers memory = some info ∧
        info.memory = store memory 0x2000 bios.descriptors ∧
        info.mmapAddr.toNat = 0x2000 ∧
        info.mmapLen.toNat =
          mapLength bios.descriptors + BiosList.ahead bios := by
  have top : bootsect = 0x7c00 := rfl
  have base : e820data = BitVec.ofNat 32 0x2000 := rfl
  have short : 0x2000 + mapLength bios.descriptors + pushed ≤ bootsect := fits
  refine
    ⟨⟨store memory 0x2000 bios.descriptors, e820data,
      BitVec.ofNat 32
          (0x2000 + mapLength bios.descriptors + BiosList.ahead bios) -
        e820data⟩, ?_, rfl, rfl, ?_⟩
  · rw [collectE820, base, moreE820_answers _ _ _ (by decide), if_pos short]
    rfl
  · rw [Nat.add_assoc]
    apply ofNat_sub_e820data
    cases bios <;> simp only [BiosList.ahead] <;> omega

/-- A map which does not fit is never finished. -/
theorem collectE820_of_not_fits
    {pushed : Nat} {bios : BiosList} (memory : Memory)
    (long : ¬ Fits pushed bios) :
    collectE820 pushed bios.answers memory = none := by
  have base : e820data = BitVec.ofNat 32 0x2000 := rfl
  have tooLong : ¬ 0x2000 + mapLength bios.descriptors + pushed ≤ bootsect := long
  rw [collectE820, base, moreE820_answers _ _ _ (by decide), if_neg tooLong]
  rfl

/-! ## What the reader finds -/

section Record

variable {buffer : Memory} {p : Nat}

/-- A record that lies in the buffer is read back. -/
theorem entAt_of_record
    {descriptor : Descriptor}
    (size : ∀ i < 4, buffer (p + i) = byteOf descriptor.bytes.length i)
    (data :
      ∀ i < descriptor.bytes.length,
        buffer (p + 4 + i) = descriptor.bytes.getD i 0)
    (short : descriptor.bytes.length < 2 ^ 32) :
    entAt buffer p = descriptor.ent := by
  have long := descriptor.atLeast20
  have field :
      ∀ start count : Nat, start + count ≤ 20 →
        littleEndian buffer (p + 4 + start) count =
          littleEndian (descriptor.bytes.getD · 0) start count := by
    intro start count inside
    apply littleEndian_congr
    intro i below
    rw [Nat.add_assoc, data _ (by omega)]
  rw [entAt, Descriptor.ent, littleEndian_of_byteOf size short,
    ← field 0 8 (by omega), ← field 8 8 (by omega),
    ← field 16 4 (by omega)]
  rfl

theorem stride_ent
    {descriptor : Descriptor} (short : 4 + descriptor.bytes.length < 2 ^ 32) :
    stride descriptor.ent = 4 + descriptor.bytes.length := by
  have four : (4 : U32).toNat = 4 := rfl
  simp only [stride, Descriptor.ent, ecxOf, BitVec.toNat_add,
    BitVec.toNat_ofNat, four]
  omega

end Record

/-- The records of the boot sector are those which the reader meets. -/
theorem chain_of_store
    {buffer memory : Memory} {base limit p : Nat}
    {descriptors : List Descriptor}
    (same :
      ∀ k, p ≤ k → k < p + mapLength descriptors →
        buffer k = store memory (base + p) descriptors (base + k))
    (room : base + p + mapLength descriptors < 2 ^ 32)
    (inside : p + mapLength descriptors ≤ limit) :
    Chain (entAt buffer) stride limit p
      (descriptors.map Descriptor.ent) (p + mapLength descriptors) := by
  induction descriptors generalizing memory p with
  | nil => exact .nil
  | cons descriptor descriptors induction =>
      rw [mapLength_cons] at same room inside ⊢
      have first :
          ∀ i < 4 + descriptor.bytes.length,
            buffer (p + i) =
              storeOne memory (base + p) descriptor.bytes (base + p + i) := by
        intro i below
        rw [same (p + i) (by omega) (by omega), store,
          store_outside (by omega), Nat.add_assoc]
      have read : entAt buffer p = descriptor.ent := by
        apply entAt_of_record
        · intro i below
          rw [first i (by omega), storeOne_size (by omega) below]
        · intro i below
          rw [Nat.add_assoc, first _ (by omega), ← Nat.add_assoc,
            storeOne_bytes below]
        · omega
      rw [List.map_cons, ← read, ← Nat.add_assoc]
      apply Chain.cons
      · omega
      · rw [read, stride_ent (by omega)]
        apply induction
        · intro k above below
          rw [same k (by omega) (by omega), store, Nat.add_assoc]
        · omega
        · omega

/-- The reader gets from `p` to the limit without a call. -/
def Passes (buffer : Memory) (limit p : Nat) : Prop :=
  ∃ rest,
    Scans (entAt buffer) stride limit p rest ∧ ∀ ent ∈ rest, ent.type ≠ 1

section Buffer

variable {bios : BiosList}

/-- What premain's buffer holds. -/
structure Collected
    (bios : BiosList) (memory stack buffer : Memory) : Prop where
  stored :
    ∀ k < mapLength bios.descriptors,
      buffer k = store memory 0x2000 bios.descriptors (0x2000 + k)
  old :
    ∀ k, mapLength bios.descriptors ≤ k →
      k < mapLength bios.descriptors + BiosList.ahead bios →
      buffer k = memory (0x2000 + k)
  behind :
    ∀ k, mapLength bios.descriptors + BiosList.ahead bios ≤ k →
      buffer k = stack k

/-- The buffer of the kernel holds the records of the BIOS. -/
theorem collected_e820Buffer
    {memory stack : Memory} {info : MmapInfo}
    (written : info.memory = store memory 0x2000 bios.descriptors)
    (base : info.mmapAddr.toNat = 0x2000)
    (length :
      info.mmapLen.toNat = mapLength bios.descriptors + BiosList.ahead bios) :
    Collected bios memory stack (e820Buffer info stack) := by
  constructor
  · intro k below
    rw [e820Buffer, if_pos (by omega), base, written]
  · intro k above below
    rw [e820Buffer, if_pos (by omega), base, written,
      store_outside (by omega)]
  · intro k above
    rw [e820Buffer, if_neg (by omega)]

/-- After the records the reader has to pass what is left without a call. -/
theorem agrees_iff_passes
    {pushed : Nat} (memory stack : Memory) (fits : Fits pushed bios) :
    ∃ buffer,
      Collected bios memory stack buffer ∧
        (Agrees pushed bios memory stack ↔
          Passes buffer
            (mapLength bios.descriptors + BiosList.ahead bios)
            (mapLength bios.descriptors)) := by
  have short : 0x2000 + mapLength bios.descriptors + pushed ≤ 0x7c00 := fits
  rcases collectE820_of_fits memory fits with
    ⟨info, collects, written, base, length⟩
  have collected : Collected bios memory stack (e820Buffer info stack) :=
    collected_e820Buffer written base length
  have same :
      ∀ k, 0 ≤ k → k < 0 + mapLength bios.descriptors →
        e820Buffer info stack k =
          store memory (0x2000 + 0) bios.descriptors (0x2000 + k) := by
    intro k _ below
    exact collected.stored k (by omega)
  have inside :
      0 + mapLength bios.descriptors ≤
        mapLength bios.descriptors + BiosList.ahead bios := by
    omega
  have chain := chain_of_store same (by omega) inside
  rw [Nat.zero_add] at chain
  refine ⟨e820Buffer info stack, collected, ?_⟩
  simp only [Agrees, collects, Option.some.injEq, exists_eq_left',
    forEachE820Entry_eq_some_iff, length]
  constructor
  · rintro ⟨all, scans, same⟩
    rcases chain.scans_iff.1 scans with ⟨rest, rfl, further⟩
    rw [List.filter_append, List.append_right_eq_self,
      List.filter_eq_nil_iff] at same
    exact ⟨rest, further, fun ent member => by simpa using same ent member⟩
  · rintro ⟨rest, further, ignored⟩
    refine ⟨_, chain.scans_iff.2 ⟨rest, rfl, further⟩, ?_⟩
    rw [List.filter_append, List.append_right_eq_self,
      List.filter_eq_nil_iff]
    intro ent member
    simpa using ignored ent member

end Buffer

/-! ## The rest of the map -/

section Passes

variable {buffer : Memory} {limit p : Nat}

theorem type_entAt_iff :
    (entAt buffer p).type = 1 ↔ littleEndian buffer (p + 20) 4 = 1 := by
  have bound : littleEndian buffer (p + 20) 4 < 2 ^ 32 :=
    littleEndian_lt buffer (p + 20) 4
  have one : (1 : U32).toNat = 1 := rfl
  rw [entAt, ← BitVec.toNat_inj, BitVec.toNat_ofNat, one,
    Nat.mod_eq_of_lt bound]

theorem stride_entAt (buffer : Memory) (p : Nat) :
    stride (entAt buffer p) = (littleEndian buffer p 4 + 4) % 2 ^ 32 := by
  have four : (4 : U32).toNat = 4 := rfl
  rw [stride, entAt, BitVec.toNat_add, BitVec.toNat_ofNat, four,
    Nat.mod_add_mod]

theorem passes_end (beyond : limit ≤ p) : Passes buffer limit p :=
  ⟨[], (scans_end_iff beyond).2 rfl, fun _ member => by cases member⟩

/-- A scan goes on behind an entry that is not usable. -/
theorem passes_step_iff (inside : p < limit) :
    Passes buffer limit p ↔
      (entAt buffer p).type ≠ 1 ∧
        Passes buffer limit (p + stride (entAt buffer p)) := by
  constructor
  · rintro ⟨rest, scans, ignored⟩
    rcases (scans_cons_iff inside).1 scans with ⟨later, rfl, further⟩
    exact
      ⟨ignored _ (List.mem_cons_self ..), later, further,
        fun ent member => ignored ent (List.mem_cons_of_mem _ member)⟩
  · rintro ⟨first, later, further, ignored⟩
    refine ⟨_, (scans_cons_iff inside).2 ⟨later, rfl, further⟩, ?_⟩
    intro ent member
    rcases List.mem_cons.1 member with rfl | member
    · exact first
    · exact ignored ent member

/-- A scan does not pass an entry with stride zero. -/
theorem not_passes_of_stuck
    (inside : p < limit) (stuck : stride (entAt buffer p) = 0) :
    ¬ Passes buffer limit p := by
  rintro ⟨rest, scans, -⟩
  exact not_scans_of_stuck inside stuck rest scans

/-- The last entry decides. -/
theorem passes_last_iff
    (inside : p < limit) (last : limit ≤ p + stride (entAt buffer p)) :
    Passes buffer limit p ↔ (entAt buffer p).type ≠ 1 := by
  rw [passes_step_iff inside]
  exact and_iff_left (passes_end last)

end Passes

/--
What lies behind the map of a list which ends with the carry flag: the first
word of it is the old memory behind the descriptors, the rest is the stack
behind the buffer.
-/
def RestIgnored (memory stack : Memory) (length : Nat) : Prop :=
  littleEndian memory (0x2000 + length) 4 ≠ 0xfffffffc ∧
    littleEndian stack (length + 20) 4 ≠ 1 ∧
      (0xfffffffc < littleEndian memory (0x2000 + length) 4 →
        littleEndian stack
          (length +
              (littleEndian memory (0x2000 + length) 4 - 0xfffffffc) + 20)
          4 ≠ 1)

/-- The bytes above the lowest of a word just below `2 ^ 32` are all ones. -/
theorem toNat_eq_of_littleEndian
    {memory : Memory} {start i : Nat}
    (high : 0xfffffffc < littleEndian memory start 4)
    (positive : 0 < i) (below : i < 4) :
    (memory (start + i)).toNat = 255 := by
  have bounds : ∀ j, (memory j).toNat < 256 := fun j => (memory j).isLt
  have first := bounds start
  have second := bounds (start + 1)
  have third := bounds (start + 1 + 1)
  have fourth := bounds (start + 1 + 1 + 1)
  simp only [littleEndian] at high
  rcases (by omega : i = 1 ∨ i = 2 ∨ i = 3) with rfl | rfl | rfl
  · omega
  · change (memory (start + 1 + 1)).toNat = 255
    omega
  · change (memory (start + 1 + 1 + 1)).toNat = 255
    omega

/-- A buffer which holds an old word at `length` and the stack behind it. -/
structure Rest (buffer memory stack : Memory) (length : Nat) : Prop where
  old :
    ∀ k, length ≤ k → k < length + 4 → buffer k = memory (0x2000 + k)
  behind : ∀ k, length + 4 ≤ k → buffer k = stack k

namespace Rest

variable {buffer memory stack : Memory} {length : Nat}

theorem type_iff
    (rest : Rest buffer memory stack length) {p : Nat} (above : length ≤ p) :
    (entAt buffer p).type = 1 ↔ littleEndian stack (p + 20) 4 = 1 := by
  have same :
      littleEndian buffer (p + 20) 4 = littleEndian stack (p + 20) 4 :=
    littleEndian_congr fun i _ => rest.behind _ (by omega)
  rw [type_entAt_iff, same]

theorem stride_eq (rest : Rest buffer memory stack length) :
    stride (entAt buffer length) =
      (littleEndian memory (0x2000 + length) 4 + 4) % 2 ^ 32 := by
  have word :
      littleEndian buffer length 4 =
        littleEndian memory (0x2000 + length) 4 := by
    apply littleEndian_congr
    intro i below
    rw [rest.old _ (by omega) (by omega), Nat.add_assoc]
  rw [stride_entAt, word]

/-- A size that does not wrap ends the scan. -/
theorem passes_of_low_iff
    (rest : Rest buffer memory stack length)
    (low : littleEndian memory (0x2000 + length) 4 < 0xfffffffc) :
    Passes buffer (length + 4) length ↔
      littleEndian stack (length + 20) 4 ≠ 1 := by
  have moves := rest.stride_eq
  have last : length + 4 ≤ length + stride (entAt buffer length) := by
    omega
  rw [passes_last_iff (by omega) last, Ne, rest.type_iff (Nat.le_refl _)]

/-- The second record starts inside the word, so its size ends in `0xff`. -/
theorem passes_of_high_iff
    (rest : Rest buffer memory stack length)
    (high : 0xfffffffc < littleEndian memory (0x2000 + length) 4) :
    Passes buffer (length + 4) length ↔
      littleEndian stack (length + 20) 4 ≠ 1 ∧
        littleEndian stack
          (length +
              (littleEndian memory (0x2000 + length) 4 - 0xfffffffc) + 20)
          4 ≠ 1 := by
  have bound : littleEndian memory (0x2000 + length) 4 < 2 ^ 32 :=
    littleEndian_lt memory (0x2000 + length) 4
  have ones :
      ∀ i, 0 < i → i < 4 → (buffer (length + i)).toNat = 255 := by
    intro i positive below
    rw [rest.old _ (by omega) (by omega), ← Nat.add_assoc,
      toNat_eq_of_littleEndian high positive below]
  have moves := rest.stride_eq
  have step :
      stride (entAt buffer length) =
        littleEndian memory (0x2000 + length) 4 - 0xfffffffc := by
    omega
  rw [passes_step_iff (by omega), Ne, rest.type_iff (Nat.le_refl _), step]
  have positive :
      0 < littleEndian memory (0x2000 + length) 4 - 0xfffffffc := by
    omega
  have below :
      littleEndian memory (0x2000 + length) 4 - 0xfffffffc < 4 := by
    omega
  generalize
    littleEndian memory (0x2000 + length) 4 - 0xfffffffc = d
    at positive below ⊢
  have low := ones d positive below
  have far : 3 ≤ stride (entAt buffer (length + d)) := by
    rw [stride_entAt, littleEndian]
    omega
  have last :
      length + 4 ≤ length + d + stride (entAt buffer (length + d)) := by
    omega
  rw [passes_last_iff (by omega) last, Ne,
    rest.type_iff (Nat.le_add_right _ _)]

/-- What follows the records is ignored unless the scan stands still there or
meets the type of memory. -/
theorem passes_iff (rest : Rest buffer memory stack length) :
    Passes buffer (length + 4) length ↔
      RestIgnored memory stack length := by
  rw [RestIgnored]
  rcases Nat.lt_trichotomy
      (littleEndian memory (0x2000 + length) 4) 0xfffffffc with
    low | stuck | high
  · rw [rest.passes_of_low_iff low]
    constructor
    · intro ignored
      exact ⟨Nat.ne_of_lt low, ignored, fun high => by omega⟩
    · rintro ⟨-, ignored, -⟩
      exact ignored
  · have moves := rest.stride_eq
    have still : stride (entAt buffer length) = 0 := by omega
    constructor
    · intro passes
      exact absurd passes (not_passes_of_stuck (by omega) still)
    · rintro ⟨other, -, -⟩
      exact absurd stuck other
  · rw [rest.passes_of_high_iff high]
    constructor
    · rintro ⟨first, second⟩
      exact ⟨Nat.ne_of_gt high, first, fun _ => second⟩
    · rintro ⟨-, first, second⟩
      exact ⟨first, second high⟩

end Rest

/-! ## When they agree -/

/-- The lists after which the reader calls back for the descriptors alone. -/
def ReadBack (bios : BiosList) (memory stack : Memory) : Prop :=
  match bios with
  | .endsWithZero _ _ => True
  | .endsWithCarry _ =>
      RestIgnored memory stack (mapLength bios.descriptors)

/-- A map which fits and ends with `ebx = 0` is read back. -/
theorem agrees_of_zero
    {pushed : Nat} (earlier : List Continued) (last : Descriptor)
    (memory stack : Memory) (fits : Fits pushed (.endsWithZero earlier last)) :
    Agrees pushed (.endsWithZero earlier last) memory stack := by
  rcases agrees_iff_passes memory stack fits with ⟨buffer, -, agrees⟩
  exact agrees.2 (passes_end (Nat.le_refl _))

/-- A map which fits and ends with the carry flag is read back if the word
behind it is passed without a call. -/
theorem agrees_carry_iff
    {pushed : Nat} (earlier : List Continued) (memory stack : Memory)
    (fits : Fits pushed (.endsWithCarry earlier)) :
    Agrees pushed (.endsWithCarry earlier) memory stack ↔
      RestIgnored memory stack
        (mapLength (BiosList.endsWithCarry earlier).descriptors) := by
  rcases agrees_iff_passes memory stack fits with
    ⟨buffer, collected, agrees⟩
  rw [agrees]
  exact Rest.passes_iff ⟨collected.old, collected.behind⟩

/--
The reader agrees with the boot sector on a map which ends below the stack of
the boot sector: always after `ebx = 0`, and after the carry flag when what lies
behind the map happens to be passed without a call.
-/
theorem e820_agree_iff
    (pushed : Nat) (bios : BiosList) (memory stack : Memory) :
    Agrees pushed bios memory stack ↔
      Fits pushed bios ∧ ReadBack bios memory stack := by
  by_cases fits : Fits pushed bios
  · rw [and_iff_right fits]
    cases bios with
    | endsWithZero earlier last =>
        exact
          iff_of_true (agrees_of_zero earlier last memory stack fits) trivial
    | endsWithCarry earlier =>
        exact agrees_carry_iff earlier memory stack fits
  · refine iff_of_false ?_ fun agrees => fits agrees.1
    rintro ⟨info, collects, -⟩
    rw [collectE820_of_not_fits memory fits] at collects
    cases collects

/-- A usable range of one page from address 0. -/
def onePage : Descriptor where
  bytes := List.replicate 9 0 ++ [0x10] ++ List.replicate 6 0 ++ [1, 0, 0, 0]
  atLeast20 := by decide

example :
    Agrees 0x400 (.endsWithZero [] onePage) (fun _ => 0) (fun _ => 0) :=
  agrees_of_zero _ _ _ _ (by decide)

/-- With 1 KiB of stack the map of one page fits, but behind the buffer of the
reader the stack of the kernel holds a word which reads as a type. -/
theorem carry_reads_the_stack :
    ¬ Agrees 0x400
        (.endsWithCarry [⟨onePage, 1, by decide⟩])
        (fun _ => 0) (fun k => if k = 44 then 1 else 0) := by
  rw [agrees_carry_iff _ _ _ (by decide)]
  rintro ⟨-, ignored, -⟩
  exact ignored (by decide)

end NopOS.Boot.E820Agreement
