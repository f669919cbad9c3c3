import Mathlib.Tactic

/-!
# Blocks of memory and their clients

The client of an allocator holds a list of blocks.  An allocation puts a
block in front, and a release takes out a block with a given start.  The
module states when such a list is sound and which operations keep it so,
whatever the allocator does inside.
-/

namespace NopOS.Lib.Blocks

/-- A range of addresses, by its start. -/
@[ext]
structure Block where
  start : Nat
  size : Nat
deriving DecidableEq

namespace Block

/-- The first address behind a block. -/
def stop (block : Block) : Nat := block.start + block.size

/-- The two ranges have no byte in common because one lies below the other. -/
def Apart (first second : Block) : Prop :=
  first.stop ≤ second.start ∨ second.stop ≤ first.start

instance (first second : Block) : Decidable (Apart first second) :=
  inferInstanceAs (Decidable (_ ∨ _))

theorem Apart.symm {first second : Block} (apart : Apart first second) :
    Apart second first :=
  Or.symm apart

instance : Std.Symm Apart :=
  ⟨fun _ _ => Apart.symm⟩

/-- Blocks apart of each other and not empty start at different places. -/
theorem Apart.start_ne
    {first second : Block} (apart : Apart first second)
    (firstNotEmpty : 0 < first.size) (secondNotEmpty : 0 < second.size) :
    first.start ≠ second.start := by
  rintro same
  simp only [Apart, stop] at apart
  omega

/-- The block at a distance. -/
def shift (base : Nat) (block : Block) : Block :=
  { block with start := base + block.start }

theorem apart_shift
    {base : Nat} {first second : Block} (apart : Apart first second) :
    Apart (shift base first) (shift base second) := by
  simp only [Apart, stop, shift] at *
  omega

end Block

/-- No two blocks overlap. -/
def Separated (blocks : List Block) : Prop :=
  blocks.Pairwise Block.Apart

/-- Every block ends at or before a limit. -/
def Below (limit : Nat) (blocks : List Block) : Prop :=
  ∀ block ∈ blocks, block.stop ≤ limit

/-- No block is empty. -/
def NotEmpty (blocks : List Block) : Prop :=
  ∀ block ∈ blocks, 0 < block.size

/-- Take out the most recent block with a given start. -/
def release (start : Nat) (blocks : List Block) : List Block :=
  blocks.eraseP fun block => decide (block.start = start)

theorem Below.mono
    {limit larger : Nat} {blocks : List Block}
    (below : Below limit blocks) (le : limit ≤ larger) :
    Below larger blocks :=
  fun block member => (below block member).trans le

/-- A block at or above the limit of the others is apart of them. -/
theorem Separated.cons
    {limit : Nat} {block : Block} {blocks : List Block}
    (separated : Separated blocks) (below : Below limit blocks)
    (above : limit ≤ block.start) :
    Separated (block :: blocks) := by
  refine List.pairwise_cons.2 ⟨?_, separated⟩
  intro other member
  exact Or.inr ((below other member).trans above)

theorem Separated.shift
    {blocks : List Block} (separated : Separated blocks) (base : Nat) :
    Separated (blocks.map (Block.shift base)) :=
  List.Pairwise.map _ (fun _ _ apart => Block.apart_shift apart) separated

/-! ## Releases -/

theorem release_sublist (start : Nat) (blocks : List Block) :
    (release start blocks).Sublist blocks :=
  List.eraseP_sublist

theorem mem_of_mem_release
    {start : Nat} {blocks : List Block} {block : Block}
    (member : block ∈ release start blocks) :
    block ∈ blocks :=
  (release_sublist start blocks).mem member

/-- Fewer blocks do not overlap either. -/
theorem Separated.release
    {blocks : List Block} (separated : Separated blocks) (start : Nat) :
    Separated (release start blocks) :=
  List.Pairwise.sublist (release_sublist start blocks) separated

theorem Below.release
    {limit : Nat} {blocks : List Block}
    (below : Below limit blocks) (start : Nat) :
    Below limit (release start blocks) :=
  fun block member => below block (mem_of_mem_release member)

theorem NotEmpty.release
    {blocks : List Block} (notEmpty : NotEmpty blocks) (start : Nat) :
    NotEmpty (release start blocks) :=
  fun block member => notEmpty block (mem_of_mem_release member)

/-- Two different blocks of a separated list are apart. -/
theorem Separated.apart
    {blocks : List Block} (separated : Separated blocks)
    {first second : Block}
    (firstMember : first ∈ blocks) (secondMember : second ∈ blocks)
    (different : first ≠ second) :
    Block.Apart first second :=
  List.Pairwise.forall separated firstMember secondMember different

/-- Among blocks which are not empty a start names at most one. -/
theorem release_eq_filter
    {blocks : List Block} (separated : Separated blocks)
    (notEmpty : NotEmpty blocks) (start : Nat) :
    release start blocks =
      blocks.filter fun block => decide (block.start ≠ start) := by
  induction blocks with
  | nil => rfl
  | cons block blocks induction =>
      rcases List.pairwise_cons.1 separated with ⟨apart, separated⟩
      have blockNotEmpty := notEmpty block (by simp)
      have othersNotEmpty : NotEmpty blocks :=
        fun other member => notEmpty other (by simp [member])
      by_cases same : block.start = start
      · have others :
            ∀ other ∈ blocks, decide (other.start ≠ start) = true := by
          intro other member
          have different :=
            (apart other member).start_ne blockNotEmpty
              (othersNotEmpty other member)
          simpa [same] using different.symm
        rw [release, List.eraseP_cons_of_pos (by simpa using same),
          List.filter_cons_of_neg (by simpa using same),
          List.filter_eq_self.2 others]
      · rw [release, List.eraseP_cons_of_neg (by simpa using same),
          List.filter_cons_of_pos (by simpa using same)]
        congr 1
        exact induction separated othersNotEmpty

/-- No block that is left starts where the released one did. -/
theorem start_ne_of_mem_release
    {blocks : List Block} (separated : Separated blocks)
    (notEmpty : NotEmpty blocks) {start : Nat} {block : Block}
    (member : block ∈ release start blocks) :
    block.start ≠ start := by
  rw [release_eq_filter separated notEmpty] at member
  simpa using (List.mem_filter.1 member).2

/-- A start which no other block has names one block. -/
theorem release_eq_erase
    {block : Block} {blocks : List Block} (member : block ∈ blocks)
    (unshared : ∀ other ∈ blocks.erase block, other.start ≠ block.start) :
    release block.start blocks = blocks.erase block := by
  induction blocks with
  | nil => cases member
  | cons first blocks induction =>
      by_cases same : first = block
      · rw [release, same, List.erase_cons_head]
        exact List.eraseP_cons_of_pos (decide_eq_true rfl)
      · have rest : (first :: blocks).erase block =
            first :: blocks.erase block :=
          List.erase_cons_tail (by simpa using same)
        rw [rest] at unshared ⊢
        have different := unshared first List.mem_cons_self
        rw [release, List.eraseP_cons_of_neg (by simpa using different),
          ← release,
          induction (List.mem_of_ne_of_mem (Ne.symm same) member)
            fun other held => unshared other (List.mem_cons_of_mem _ held)]

theorem filter_perm_erase
    {block : Block} {blocks : List Block} (member : block ∈ blocks)
    (unshared : ∀ other ∈ blocks.erase block, other.start ≠ block.start) :
    (blocks.filter fun other => decide (other.start ≠ block.start)).Perm
      (blocks.erase block) := by
  have kept :
      (blocks.erase block).filter
          (fun other => decide (other.start ≠ block.start)) =
        blocks.erase block :=
    List.filter_eq_self.2 fun other held =>
      decide_eq_true (unshared other held)
  have parts := (List.perm_cons_erase member).filter
    fun other => decide (other.start ≠ block.start)
  rw [List.filter_cons_of_neg (by simp), kept] at parts
  exact parts

/--
Giving back the topmost block lowers the limit of the others to its start.
-/
theorem Below.release_top
    {limit : Nat} {blocks : List Block} {top : Block}
    (separated : Separated blocks) (notEmpty : NotEmpty blocks)
    (below : Below limit blocks)
    (member : top ∈ blocks) (isTop : top.stop = limit) :
    Below top.start (Blocks.release top.start blocks) := by
  intro other otherMember
  have different :=
    start_ne_of_mem_release separated notEmpty otherMember
  have otherHeld := mem_of_mem_release otherMember
  have otherBelow := below other otherHeld
  have otherNotEmpty := notEmpty other otherHeld
  have apart :=
    separated.apart otherHeld member (fun same => different (same ▸ rfl))
  simp only [Block.Apart, Block.stop] at *
  omega

end NopOS.Lib.Blocks
