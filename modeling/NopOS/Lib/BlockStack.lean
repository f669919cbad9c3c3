import NopOS.Lib.Blocks

/-!
# A stack of blocks which is reclaimed from the top

Entries are stacked without gaps: an entry starts where the ones under it
end.  Giving a block back marks its entry dead, wherever it is, and then takes
the dead entries off the top.  The space under a live entry is not reused, so
the live entries are sound however they are given back.

A list of entries has the top entry first.
-/

namespace NopOS.Lib.BlockStack

open NopOS.Lib.Blocks

/-- An entry of the stack: the bytes it takes, and whether it is still held. -/
@[ext]
structure Entry where
  size : Nat
  live : Bool
deriving DecidableEq

/-- Where the next entry starts. -/
def height : List Entry → Nat
  | [] => 0
  | entry :: entries => height entries + entry.size

/-- The live entries as blocks. -/
def blocks : List Entry → List Block
  | [] => []
  | entry :: entries =>
      if entry.live then ⟨height entries, entry.size⟩ :: blocks entries
      else blocks entries

/-- A new entry on top. -/
def push (size : Nat) (entries : List Entry) : List Entry :=
  ⟨size, true⟩ :: entries

/-- Mark every entry which starts at an offset. -/
def mark (offset : Int) : List Entry → List Entry
  | [] => []
  | entry :: entries =>
      (if (height entries : Int) = offset then ⟨entry.size, false⟩
        else entry) :: mark offset entries

/-- Take the dead entries off the top. -/
def trim : List Entry → List Entry
  | [] => []
  | entry :: entries =>
      if entry.live then entry :: entries else trim entries

/-- Mark what starts at an offset, and take away the dead entries on top. -/
def giveBack (offset : Int) (entries : List Entry) : List Entry :=
  trim (mark offset entries)

/-! ## The live blocks are sound -/

/-- The blocks of a stack end below its height. -/
theorem blocks_below (entries : List Entry) :
    Below (height entries) (blocks entries) := by
  induction entries with
  | nil => simp [Below, blocks]
  | cons entry entries induction =>
      have under : Below (height (entry :: entries)) (blocks entries) :=
        induction.mono (Nat.le_add_right _ _)
      rw [blocks]
      split
      · intro block member
        rcases List.mem_cons.1 member with rfl | member
        · exact Nat.le_refl _
        · exact under block member
      · exact under

/-- The blocks of a stack do not overlap. -/
theorem blocks_separated (entries : List Entry) :
    Separated (blocks entries) := by
  induction entries with
  | nil => exact List.Pairwise.nil
  | cons entry entries induction =>
      rw [blocks]
      split
      · exact induction.cons (blocks_below entries) (Nat.le_refl _)
      · exact induction

/-! ## Effect of the operations on the live blocks -/

@[simp]
theorem blocks_push (size : Nat) (entries : List Entry) :
    blocks (push size entries) = ⟨height entries, size⟩ :: blocks entries :=
  rfl

@[simp]
theorem height_push (size : Nat) (entries : List Entry) :
    height (push size entries) = height entries + size := rfl

@[simp]
theorem length_mark (offset : Int) (entries : List Entry) :
    (mark offset entries).length = entries.length := by
  induction entries with
  | nil => rfl
  | cons entry entries induction => simp [mark, induction]

@[simp]
theorem height_mark (offset : Int) (entries : List Entry) :
    height (mark offset entries) = height entries := by
  induction entries with
  | nil => rfl
  | cons entry entries induction =>
      simp only [mark, height, induction]
      split <;> rfl

/-- A mark releases the blocks at its offset. -/
theorem blocks_mark (offset : Int) (entries : List Entry) :
    blocks (mark offset entries) =
      (blocks entries).filter
        fun block => decide ((block.start : Int) ≠ offset) := by
  induction entries with
  | nil => rfl
  | cons entry entries induction =>
      simp only [mark, blocks, height_mark, induction]
      by_cases same : (height entries : Int) = offset
      · cases alive : entry.live <;> simp [same]
      · cases alive : entry.live <;> simp [same, alive]

/-- What is trimmed was not live. -/
@[simp]
theorem blocks_trim (entries : List Entry) :
    blocks (trim entries) = blocks entries := by
  induction entries with
  | nil => rfl
  | cons entry entries induction =>
      cases alive : entry.live <;> simp [trim, blocks, alive, induction]

/-- What is given back are the blocks at the offset. -/
theorem blocks_giveBack (offset : Int) (entries : List Entry) :
    blocks (giveBack offset entries) =
      (blocks entries).filter
        fun block => decide ((block.start : Int) ≠ offset) := by
  rw [giveBack, blocks_trim, blocks_mark]

/-- Giving back, seen from the place where the stack starts. -/
theorem shift_giveBack
    (base start : Nat) (entries : List Entry) :
    (blocks (giveBack ((start : Int) - base) entries)).map
        (Block.shift base) =
      ((blocks entries).map (Block.shift base)).filter
        fun block => decide (block.start ≠ start) := by
  rw [List.filter_map, blocks_giveBack]
  refine congrArg (List.map _) (List.filter_congr ?_)
  intro block member
  apply decide_eq_decide.2
  simp only [Block.shift]
  constructor <;>
    intro different same <;>
    exact different (by omega)

/-! ## Stacks without dead entries on top -/

/-- There is nothing to take off the top. -/
def Trimmed (entries : List Entry) : Prop :=
  trim entries = entries

theorem trimmed_nil : Trimmed [] := rfl

theorem trimmed_push (size : Nat) (entries : List Entry) :
    Trimmed (push size entries) := rfl

/-- A trimmed stack has nothing left to trim. -/
theorem trimmed_trim (entries : List Entry) : Trimmed (trim entries) := by
  induction entries with
  | nil => rfl
  | cons entry entries induction =>
      rw [trim]
      cases alive : entry.live with
      | true =>
          rw [if_pos rfl, Trimmed, trim, alive, if_pos rfl]
      | false =>
          rw [if_neg Bool.false_ne_true]
          exact induction

theorem trimmed_giveBack (offset : Int) (entries : List Entry) :
    Trimmed (giveBack offset entries) :=
  trimmed_trim _

theorem trimmed_of_live
    {entry : Entry} (alive : entry.live = true) (entries : List Entry) :
    Trimmed (entry :: entries) := by
  rw [Trimmed, trim, alive, if_pos rfl]

theorem trim_suffix (entries : List Entry) : trim entries <:+ entries := by
  induction entries with
  | nil => exact List.suffix_refl _
  | cons entry entries induction =>
      rw [trim]
      split
      · exact List.suffix_refl _
      · exact induction.trans (List.suffix_cons _ _)

/-- The top entry of a trimmed stack is live. -/
theorem Trimmed.live_top
    {entry : Entry} {entries : List Entry}
    (trimmed : Trimmed (entry :: entries)) : entry.live = true := by
  by_contra dead
  rw [Bool.not_eq_true] at dead
  have shorter := (trim_suffix entries).length_le
  rw [Trimmed, trim, dead, if_neg Bool.false_ne_true] at trimmed
  rw [trimmed, List.length_cons] at shorter
  omega

/-- A trimmed stack without live blocks is empty. -/
theorem Trimmed.eq_nil
    {entries : List Entry} (trimmed : Trimmed entries)
    (none : blocks entries = []) : entries = [] := by
  cases entries with
  | nil => rfl
  | cons entry entries =>
      rw [blocks, trimmed.live_top, if_pos rfl] at none
      cases none

/-- The top entry of a trimmed stack is the highest live block. -/
theorem Trimmed.mem_blocks
    {entry : Entry} {entries : List Entry}
    (trimmed : Trimmed (entry :: entries)) :
    ⟨height entries, entry.size⟩ ∈ blocks (entry :: entries) := by
  rw [blocks, trimmed.live_top, if_pos rfl]
  exact List.mem_cons_self

theorem trimmed_cons_iff (entry : Entry) (entries : List Entry) :
    Trimmed (entry :: entries) ↔ entry.live = true := by
  constructor
  · exact Trimmed.live_top
  · intro live
    rw [Trimmed, trim, live, if_pos rfl]

/-! ## Where the next entry starts after a block was given back -/

/-- No entry, live or dead, is empty. -/
def Solid (entries : List Entry) : Prop :=
  ∀ entry ∈ entries, 0 < entry.size

theorem solid_push
    {size : Nat} {entries : List Entry} (positive : 0 < size)
    (solid : Solid entries) : Solid (push size entries) := by
  intro entry member
  rcases List.mem_cons.1 member with rfl | member
  · exact positive
  · exact solid entry member

theorem blocks_positive
    {entries : List Entry} (solid : Solid entries) :
    NotEmpty (blocks entries) := by
  induction entries with
  | nil => simp [NotEmpty, blocks]
  | cons entry entries induction =>
      have under : NotEmpty (blocks entries) :=
        induction fun other member =>
          solid other (List.mem_cons_of_mem _ member)
      rw [blocks]
      split
      · intro block member
        rcases List.mem_cons.1 member with rfl | member
        · exact solid entry List.mem_cons_self
        · exact under block member
      · exact under

theorem solid_mark
    {entries : List Entry} (solid : Solid entries) (offset : Int) :
    Solid (mark offset entries) := by
  induction entries with
  | nil => exact solid
  | cons entry entries induction =>
      intro other member
      rcases List.mem_cons.1 member with rfl | member
      · have positive := solid entry List.mem_cons_self
        split <;> exact positive
      · exact
          induction
            (fun under held => solid under (List.mem_cons_of_mem _ held))
            other member

theorem solid_giveBack
    {entries : List Entry} (solid : Solid entries) (offset : Int) :
    Solid (giveBack offset entries) := by
  intro entry member
  exact solid_mark solid offset entry ((trim_suffix _).subset member)

theorem height_trim_le (entries : List Entry) :
    height (trim entries) ≤ height entries := by
  induction entries with
  | nil => exact Nat.le_refl _
  | cons entry entries induction =>
      rw [trim]
      split
      · exact Nat.le_refl _
      · exact induction.trans (Nat.le_add_right _ _)

/-- Taking an entry off lowers the height. -/
theorem trimmed_of_height
    {entries : List Entry} (solid : Solid entries)
    (same : height (trim entries) = height entries) : Trimmed entries := by
  cases entries with
  | nil => rfl
  | cons entry entries =>
      apply (trimmed_cons_iff entry entries).2
      by_contra dead
      rw [trim, if_neg dead, height] at same
      have lower := height_trim_le entries
      have positive := solid entry List.mem_cons_self
      omega

/-- Marking where no live block starts changes nothing. -/
theorem mark_eq_self
    {offset : Int} {entries : List Entry}
    (absent : ∀ block ∈ blocks entries, (block.start : Int) ≠ offset) :
    mark offset entries = entries := by
  induction entries with
  | nil => rfl
  | cons entry entries induction =>
      rw [blocks] at absent
      rw [mark]
      cases alive : entry.live with
      | true =>
          rw [alive, if_pos rfl] at absent
          rw [if_neg (absent _ List.mem_cons_self),
            induction fun block held =>
              absent block (List.mem_cons_of_mem _ held)]
      | false =>
          rw [alive, if_neg Bool.false_ne_true] at absent
          rw [induction absent]
          split
          · rw [← alive]
          · rfl

/-- The space of a block is the next to be used exactly if the block is the
top entry and the entry under it is live. -/
theorem height_giveBack_eq_iff
    {entry : Entry} {entries : List Entry} {block : Block}
    (trimmed : Trimmed (entry :: entries))
    (solid : Solid (entry :: entries))
    (held : block ∈ blocks (entry :: entries)) :
    height (giveBack block.start (entry :: entries)) = block.start ↔
      height entries = block.start ∧ Trimmed entries := by
  have solidUnder : Solid entries :=
    fun under member => solid under (List.mem_cons_of_mem _ member)
  rw [giveBack, mark]
  by_cases top : height entries = block.start
  · have positive := blocks_positive solidUnder
    have absent :
        ∀ other ∈ blocks entries, (other.start : Int) ≠ block.start := by
      intro other member
      have below := blocks_below entries other member
      have notEmpty := positive other member
      rw [Block.stop] at below
      omega
    rw [if_pos (by omega), mark_eq_self absent, trim,
      if_neg Bool.false_ne_true, ← top]
    constructor
    · intro same
      exact ⟨rfl, trimmed_of_height solidUnder same⟩
    · rintro ⟨-, under⟩
      rw [under]
  · have live := trimmed.live_top
    rw [blocks, live, if_pos rfl] at held
    have below : block.start ≤ height entries := by
      rcases List.mem_cons.1 held with rfl | member
      · exact Nat.le_refl _
      · exact
          (Nat.le_add_right _ _).trans (blocks_below entries block member)
    have positive := solid entry List.mem_cons_self
    rw [if_neg (by omega), trim, if_pos live, height, height_mark]
    constructor
    · intro same
      omega
    · rintro ⟨same, -⟩
      exact absurd same top

end NopOS.Lib.BlockStack
