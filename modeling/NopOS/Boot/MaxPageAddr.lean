import NopOS.Boot.E820Bounds

/-!
# The top of usable memory

`premain` assigns the end of every usable range to `max_page_addr` while it
goes through the map.  What remains is the end of the last one, which is the
highest only where the map ends with it.
-/

namespace NopOS.Boot.MaxPageAddr

open NopOS.Lib.RecordScan
open NopOS.Boot.E820
open NopOS.Boot.E820Bounds (sizeofEnt)

/-! ## The scan of `premain` -/

/-- What the callback leaves in `max_page_addr`. -/
def setMaxPageAddr (_maxPageAddr : U64) (ent : E820ent) : U64 :=
  ent.addr + ent.size

/-- `max_page_addr` after the scan, from what it was before. -/
def premainScan (buffer : Memory) (size : U32) (maxPageAddr : U64) :
    Option U64 :=
  (forEachE820Entry buffer size).map fun ents =>
    ents.foldl setMaxPageAddr maxPageAddr

/-! ## Well-formed maps -/

/-- The first address behind a range. -/
def topOf (ent : E820ent) : Nat := ent.addr.toNat + ent.size.toNat

/-- The ranges of type 1. -/
def usable (ents : List E820ent) : List E820ent :=
  ents.filter fun ent => ent.type = 1

/-- A buffer which is a row of whole entries, one of which is usable. -/
structure E820Map where
  buffer : Memory
  size : U32
  ents : List E820ent
  row : Chain (entAt buffer) stride size.toNat 0 ents size.toNat
  whole : ∀ ent ∈ ents, sizeofEnt ≤ stride ent
  addressable : ∀ ent ∈ usable ents, topOf ent ≤ 2 ^ 64
  someUsable : usable ents ≠ []

/-- The highest end of a usable range. -/
def IsTop (ents : List E820ent) (top : Nat) : Prop :=
  IsGreatest {value | ∃ ent ∈ usable ents, topOf ent = value} top

/-- The last usable range ends highest, at an address of 64 bits. -/
def LastIsHighest (ents : List E820ent) : Prop :=
  ∃ last ∈ (usable ents).getLast?,
    topOf last < 2 ^ 64 ∧ ∀ ent ∈ usable ents, topOf ent ≤ topOf last

/-! ## The last range decides -/

/-- The last entry decides, whatever came before. -/
theorem foldl_setMaxPageAddr
    {ents : List E820ent} (nonempty : ents ≠ []) (before : U64) :
    ents.foldl setMaxPageAddr before =
      (ents.getLast nonempty).addr + (ents.getLast nonempty).size := by
  have split := List.dropLast_append_getLast nonempty
  calc
    ents.foldl setMaxPageAddr before =
        (ents.dropLast ++ [ents.getLast nonempty]).foldl setMaxPageAddr
          before := by rw [split]
    _ = (ents.getLast nonempty).addr + (ents.getLast nonempty).size := by
      rw [List.foldl_append]
      rfl

namespace E820Map

variable (map : E820Map)

/-- The last usable range of the map. -/
def last : E820ent := (usable map.ents).getLast map.someUsable

theorem last_mem : map.last ∈ usable map.ents :=
  List.getLast_mem map.someUsable

/-- `premain` ends with the end of the last usable entry. -/
theorem premainScan_eq (before : U64) :
    premainScan map.buffer map.size before =
      some (map.last.addr + map.last.size) := by
  have calls :
      forEachE820Entry map.buffer map.size = some (usable map.ents) :=
    forEachE820Entry_eq_some_iff.mpr
      ⟨map.ents, ⟨map.size.toNat, map.row, le_rfl⟩, rfl⟩
  rw [premainScan, calls, Option.map_some, last,
    foldl_setMaxPageAddr map.someUsable]

theorem lastIsHighest_iff :
    LastIsHighest map.ents ↔
      topOf map.last < 2 ^ 64 ∧
        ∀ ent ∈ usable map.ents, topOf ent ≤ topOf map.last := by
  rw [LastIsHighest, List.getLast?_eq_some_getLast map.someUsable]
  constructor
  · rintro ⟨last, member, highest⟩
    cases member
    exact highest
  · intro highest
    exact ⟨map.last, rfl, highest⟩

/-- The sum is cut to 64 bits, which makes 0 of the end of the last page. -/
theorem toNat_last :
    (map.last.addr + map.last.size).toNat =
      if topOf map.last < 2 ^ 64 then topOf map.last else 0 := by
  have addressable := map.addressable map.last map.last_mem
  rw [BitVec.toNat_add]
  unfold topOf at addressable ⊢
  split
  · omega
  · omega

/-- That end is the top exactly if the last entry is the highest. -/
theorem isTop_iff :
    IsTop map.ents (map.last.addr + map.last.size).toNat ↔
      LastIsHighest map.ents := by
  rw [lastIsHighest_iff, toNat_last]
  constructor
  · rintro ⟨-, upper⟩
    have below (ent : E820ent) (member : ent ∈ usable map.ents) :=
      upper ⟨ent, member, rfl⟩
    have own := below map.last map.last_mem
    split at own
    · next fits =>
      rw [if_pos fits] at below
      exact ⟨fits, below⟩
    · next wraps => omega
  · rintro ⟨fits, highest⟩
    rw [if_pos fits]
    refine ⟨⟨map.last, map.last_mem, rfl⟩, ?_⟩
    rintro value ⟨ent, member, rfl⟩
    exact highest ent member

end E820Map

/-! ## Maps in another order -/

/-- The top does not depend on the order. -/
theorem isTop_of_perm
    {first second : E820Map} (permuted : first.ents.Perm second.ents)
    (top : Nat) : IsTop first.ents top ↔ IsTop second.ents top := by
  have member (ent : E820ent) :
      ent ∈ usable first.ents ↔ ent ∈ usable second.ents :=
    (permuted.filter _).mem_iff
  simp only [IsTop, member]

/-- On two orders of one map the scan finds the top of usable memory, the
same for both, if and only if both orders end with the highest range. -/
theorem max_page_addr_iff
    (first second : E820Map) (permuted : first.ents.Perm second.ents)
    (before : U64) :
    (∃ top,
        premainScan first.buffer first.size before = some top ∧
          IsTop first.ents top.toNat ∧
            premainScan second.buffer second.size before = some top) ↔
      LastIsHighest first.ents ∧ LastIsHighest second.ents := by
  have sameTop := isTop_of_perm permuted
  rw [first.premainScan_eq, second.premainScan_eq, ← first.isTop_iff,
    ← second.isTop_iff]
  constructor
  · rintro ⟨top, ⟨⟩, isTop, same⟩
    rw [Option.some.inj same]
    exact ⟨isTop, (sameTop _).mp isTop⟩
  · rintro ⟨isTop, otherTop⟩
    have value := isTop.unique ((sameTop _).mpr otherTop)
    exact ⟨_, rfl, isTop,
      congrArg some (BitVec.eq_of_toNat_eq value).symm⟩

/-! ## The two orders of a map -/

/-- Two usable pages, at the megabytes which the arguments give. -/
def twoPages (first second : Byte) (k : Nat) : Byte :=
  if k = 0 ∨ k = 24 then 20
  else if k = 6 then first
  else if k = 30 then second
  else if k = 13 ∨ k = 37 then 0x10
  else if k = 20 ∨ k = 44 then 1
  else 0

/-- The lower page first. -/
def ascending : E820Map where
  buffer := twoPages 0x10 0x20
  size := 48
  ents := [⟨20, 0x100000, 0x1000, 1⟩, ⟨20, 0x200000, 0x1000, 1⟩]
  row := .cons (by decide) (.cons (by decide) .nil)
  whole := by decide
  addressable := by decide
  someUsable := by decide

/-- The higher page first. -/
def descending : E820Map where
  buffer := twoPages 0x20 0x10
  size := 48
  ents := [⟨20, 0x200000, 0x1000, 1⟩, ⟨20, 0x100000, 0x1000, 1⟩]
  row := .cons (by decide) (.cons (by decide) .nil)
  whole := by decide
  addressable := by decide
  someUsable := by decide

/-- A third page behind the two, at the third megabyte. -/
def threePages (first second : Byte) (k : Nat) : Byte :=
  if k < 48 then twoPages first second k else twoPages 0x30 0 (k - 48)

/-- Three usable pages in the order of their addresses. -/
def sorted : E820Map where
  buffer := threePages 0x10 0x20
  size := 72
  ents :=
    [⟨20, 0x100000, 0x1000, 1⟩, ⟨20, 0x200000, 0x1000, 1⟩,
      ⟨20, 0x300000, 0x1000, 1⟩]
  row := .cons (by decide) (.cons (by decide) (.cons (by decide) .nil))
  whole := by decide
  addressable := by decide
  someUsable := by decide

/-- The same pages with the lower two swapped. -/
def swapped : E820Map where
  buffer := threePages 0x20 0x10
  size := 72
  ents :=
    [⟨20, 0x200000, 0x1000, 1⟩, ⟨20, 0x100000, 0x1000, 1⟩,
      ⟨20, 0x300000, 0x1000, 1⟩]
  row := .cons (by decide) (.cons (by decide) (.cons (by decide) .nil))
  whole := by decide
  addressable := by decide
  someUsable := by decide

/-- Two orders of three pages, both of which end with the highest. -/
theorem max_page_addr_iff_swapped :
    ∃ top,
      premainScan sorted.buffer sorted.size 0 = some top ∧
        IsTop sorted.ents top.toNat ∧
          premainScan swapped.buffer swapped.size 0 = some top := by
  have highest : LastIsHighest sorted.ents :=
    sorted.lastIsHighest_iff.mpr (by decide)
  have stillHighest : LastIsHighest swapped.ents :=
    swapped.lastIsHighest_iff.mpr (by decide)
  exact (max_page_addr_iff sorted swapped (List.Perm.swap _ _ _) 0).mpr
    ⟨highest, stillHighest⟩

/-- The map with the higher page first gives the end of the lower one. -/
theorem descending_map_misread :
    ascending.ents.Perm descending.ents ∧
      premainScan ascending.buffer ascending.size 0 = some 0x201000 ∧
        premainScan descending.buffer descending.size 0 = some 0x101000 ∧
          ¬ IsTop descending.ents (0x101000 : U64).toNat := by
  refine ⟨List.Perm.swap _ _ _, ?_, ?_, ?_⟩
  · rw [ascending.premainScan_eq]
    rfl
  · rw [descending.premainScan_eq]
    rfl
  · rintro ⟨-, upper⟩
    have first :
        topOf ⟨20, 0x200000, 0x1000, 1⟩ ≤ (0x101000 : U64).toNat :=
      upper ⟨_, List.mem_cons_self, rfl⟩
    exact absurd first (by decide)

end NopOS.Boot.MaxPageAddr
