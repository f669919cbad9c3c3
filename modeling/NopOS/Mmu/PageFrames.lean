import NopOS.Mmu.MapRuns

/-!
# The frames of the page allocator

The allocator starts at 10 MiB and descends.  The kernel is linked at 2 MiB
and may end anywhere below 24 MiB, so the frames reach it after as many calls
as fit between its end and 10 MiB.
-/

namespace NopOS.Mmu.PageFrames

open NopOS.Lib.StatefulProgram
open NopOS.Mmu.PageTableEntry
open NopOS.Mmu.AddressTranslation
open NopOS.Mmu.PhysicalMachine
open NopOS.Mmu.MapRuns

/-- The results of a number of calls, in order. -/
def allocPages : Nat → Exec (List U64)
  | 0 => pure []
  | count + 1 => do
      let page ← allocPage
      let later ← allocPages count
      return page :: later

/-- The frames below an address. -/
def framesBelow (top : Int) : Nat → List U64
  | 0 => []
  | count + 1 =>
      BitVec.ofInt 64 (top - 4096) :: framesBelow (top - 4096) count

/-- Pages are taken from the top downwards. -/
theorem allocPages_run (count : Nat) (machine : Machine) :
    ∃ after,
      allocPages count machine =
        .ok (framesBelow machine.allocationAddr count) after := by
  induction count generalizing machine with
  | zero => exact ⟨machine, rfl⟩
  | succ count induction =>
      rw [allocPages, bind_of_ok (allocPage_run machine)]
      rcases induction _ with ⟨after, later⟩
      rw [bind_of_ok later]
      exact ⟨after, rfl⟩

theorem mem_framesBelow {top : Int} {count : Nat} {page : U64} :
    page ∈ framesBelow top count ↔
      ∃ i < count, page = BitVec.ofInt 64 (top - 4096 * (i + 1)) := by
  induction count generalizing top with
  | zero => simp [framesBelow]
  | succ count induction =>
      rw [framesBelow, List.mem_cons, induction]
      constructor
      · rintro (rfl | ⟨i, inside, rfl⟩)
        · exact ⟨0, Nat.succ_pos _, by simp⟩
        · refine ⟨i + 1, Nat.succ_lt_succ inside, ?_⟩
          congr 1
          push_cast
          ring
      · rintro ⟨i, inside, rfl⟩
        cases i with
        | zero => exact Or.inl (by simp)
        | succ i =>
            refine Or.inr ⟨i, Nat.lt_of_succ_lt_succ inside, ?_⟩
            congr 1
            push_cast
            ring

/-- A frame which lies in memory is the integer it was computed as. -/
theorem toNat_frame {address : Int} (notBelow : 0 ≤ address)
    (inMemory : address < 2 ^ 64) :
    ((BitVec.ofInt 64 address).toNat : Int) = address := by
  rw [BitVec.toNat_ofInt]
  omega

/-! ## Safe frames -/

/-- What the frames handed out must satisfy. -/
structure FramesSafe (image : KernelImage) (pages : List U64) : Prop where
  aligned : ∀ page ∈ pages, 4096 ∣ page.toNat
  distinct : pages.Nodup
  offImage :
    ∀ page ∈ pages,
      page.toNat + 4096 ≤ 0x200000 ∨ image.edata ≤ page.toNat
  notWrapped : ∀ page ∈ pages, page.toNat < 1024 * 1024 * 10

/-- No frame is handed out twice. -/
theorem framesBelow_nodup {top : Int} {count : Nat}
    (room : 4096 * (count : Int) ≤ top) (inMemory : top < 2 ^ 64) :
    (framesBelow top count).Nodup := by
  induction count generalizing top with
  | zero => exact List.nodup_nil
  | succ count induction =>
      push_cast at room
      rw [framesBelow, List.nodup_cons]
      constructor
      · intro again
        rcases mem_framesBelow.1 again with ⟨i, inside, same⟩
        have first : ((BitVec.ofInt 64 (top - 4096)).toNat : Int) = top - 4096 :=
          toNat_frame (by omega) (by omega)
        rw [same, toNat_frame (by omega) (by omega)] at first
        omega
      · exact induction (by omega) (by omega)

/-- Frames above the image are safe. -/
theorem framesSafe_of_room {image : KernelImage} {count : Nat}
    (room : image.edata + 4096 * count ≤ 1024 * 1024 * 10) :
    FramesSafe image (framesBelow (1024 * 1024 * 10) count) := by
  have located :
      ∀ page ∈ framesBelow (1024 * 1024 * 10) count,
        ∃ i < count,
          (page.toNat : Int) = 1024 * 1024 * 10 - 4096 * (i + 1) := by
    intro page member
    rcases mem_framesBelow.1 member with ⟨i, inside, rfl⟩
    exact ⟨i, inside, toNat_frame (by omega) (by omega)⟩
  constructor
  · intro page member
    rcases located page member with ⟨i, -, position⟩
    omega
  · exact framesBelow_nodup (by omega) (by decide)
  · intro page member
    rcases located page member with ⟨i, inside, position⟩
    right
    omega
  · intro page member
    rcases located page member with ⟨i, -, position⟩
    omega

/-- The first frame which does not fit above the image overlaps it. -/
theorem room_of_framesSafe {image : KernelImage} {count : Nat}
    (safe : FramesSafe image (framesBelow (1024 * 1024 * 10) count)) :
    count = 0 ∨ image.edata + 4096 * count ≤ 1024 * 1024 * 10 := by
  have above := image.above
  have inside := image.inside
  by_contra crowded
  rw [not_or, not_le] at crowded
  -- the number of frames which fit above the image
  let fitting := (1024 * 1024 * 10 - image.edata) / 4096
  have reached : fitting < count := by
    omega
  have member :
      BitVec.ofInt 64 (1024 * 1024 * 10 - 4096 * (fitting + 1)) ∈
        framesBelow (1024 * 1024 * 10) count :=
    mem_framesBelow.2 ⟨fitting, reached, rfl⟩
  have position :
      ((BitVec.ofInt 64 (1024 * 1024 * 10 - 4096 * (fitting + 1))).toNat :
          Int) =
        1024 * 1024 * 10 - 4096 * (fitting + 1) :=
    toNat_frame (by omega) (by omega)
  rcases safe.offImage _ member with beforeImage | afterImage
  · omega
  · omega

/--
The first `count` frames are safe exactly if the image ends below all of
them.
-/
theorem frames_safe_iff (image : KernelImage) (rest : Memory) (count : Nat) :
    (∃ pages after,
        allocPages count (Machine.boot image rest) = .ok pages after ∧
          FramesSafe image pages) ↔
      count = 0 ∨ image.edata + 4096 * count ≤ 1024 * 1024 * 10 := by
  rcases allocPages_run count (Machine.boot image rest) with ⟨after, returns⟩
  constructor
  · rintro ⟨pages, other, returned, safe⟩
    rw [returns] at returned
    cases returned
    exact room_of_framesSafe safe
  · intro room
    refine ⟨_, after, returns, ?_⟩
    rcases room with rfl | room
    · exact ⟨nofun, List.nodup_nil, nofun, nofun⟩
    · exact framesSafe_of_room room

/-- An image of 10 MiB, which ends at 12 MiB. -/
def largeImage : KernelImage where
  identPtL4 := 0xB00000
  edata := 0xC00000
  aligned := by decide
  above := by decide
  inside := by decide
  below := by decide

/-- The first frame lies in an image the build accepts. -/
theorem first_frame_in_large_image :
    ∃ after,
      allocPages 1 (Machine.boot largeImage fun _ => 0) =
          .ok [0x9ff000] after ∧
        largeImage.edata - 0x200000 < 0x1600000 ∧
          ¬ FramesSafe largeImage [0x9ff000] := by
  refine ⟨_, rfl, by decide, ?_⟩
  intro safe
  have apart := safe.offImage 0x9ff000 List.mem_cons_self
  revert apart
  decide

end NopOS.Mmu.PageFrames
