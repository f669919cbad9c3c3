import NopOS.Mmu.MapRuns

/-!
# `AcpiOsMapMemory`

The ACPI layer maps physical memory at a fixed distance from itself.  A
request is served page by page from the page of its first byte; the number of
pages is computed from the length alone, so a request whose first byte is not
at the start of a page may miss its last page.
-/

namespace NopOS.Acpi.MapMemory

open NopOS.Lib.StatefulProgram
open NopOS.Lib.LabelledRun
open NopOS.Mmu.PageTableEntry
open NopOS.Mmu.AddressTranslation
open NopOS.Mmu.PhysicalMachine
open NopOS.Mmu.Mapper
open NopOS.Mmu.TableInvariant
open NopOS.Mmu.MapRefinement
open NopOS.Mmu.MapRuns

/-- `virt_base`. -/
def virtBase : U64 := 0xfff00000

/-- The loop of `AcpiOsMapMemory` from `x` on. -/
def mapPages : Nat → U64 → U64 → Exec Unit
  | 0, _, _ => throw .outOfFuel
  | fuel + 1, x, limit =>
      if x < limit then do
        map (Vaddr.ofU64 x) (x - virtBase)
        mapPages fuel (x + 4096) limit
      else pure ()

/-- `AcpiOsMapMemory(Where, Length)`. -/
def acpiOsMapMemory (whereAddr length : U64) : Exec U64 := do
  let start := virtBase + (whereAddr &&& ~~~4095#64)
  mapPages (2 ^ 64) start (start + length)
  let rv := virtBase + whereAddr
  touch rv
  return rv

/-- `AcpiOsUnmapMemory(LogicalAddress, Size)` leaves mappings in place. -/
def acpiOsUnmapMemory (_logicalAddress _size : U64) : Exec Unit :=
  pure ()

/-! ## The pages a call maps -/

theorem mapPages_descends (fuel : Nat) (x limit : U64) :
    Descends (mapPages fuel x limit) := by
  induction fuel generalizing x with
  | zero => exact NeverRaises.throw _
  | succ fuel induction =>
      exact
        ((map_descends _ _).bind fun _ => induction _).ite
          (NeverRaises.pure _)

/-- The walks after `count` pages from `x` on have been mapped. -/
structure MapsWindow (image : KernelImage) (before after : Machine)
    (x : U64) (count : Nat) : Prop where
  tables : PageTables image after
  inside :
    ∀ address : U64,
      x.toNat ≤ address.toNat →
        address.toNat < x.toNat + 4096 * count →
          after.walk address =
            some
              { phys := address.toNat - virtBase.toNat
                writable := true }
  outside :
    ∀ address : U64,
      address.toNat < x.toNat ∨ x.toNat + 4096 * count ≤ address.toNat →
        after.walk address = before.walk address

/-- No page is mapped where none is asked for. -/
theorem MapsWindow.refl
    {image : KernelImage} {machine : Machine}
    (tables : PageTables image machine) (x : U64) :
    MapsWindow image machine machine x 0 where
  tables := tables
  inside := by
    intro address lower upper
    omega
  outside := fun _ _ => rfl

theorem toNat_add_page {x : U64} (below : x.toNat < 2 ^ 47) :
    (x + 4096).toNat = x.toNat + 4096 := by
  have step : (4096 : U64).toNat = 4096 := rfl
  rw [BitVec.toNat_add, step]
  omega

/-- One page and the pages above it. -/
theorem MapsWindow.cons
    {image : KernelImage} {before middle after : Machine}
    {x : U64} {count : Nat}
    (aligned : 4096 ∣ x.toNat) (window : virtBase.toNat ≤ x.toNat)
    (below : x.toNat < 2 ^ 47)
    (first : MapsPage image before middle x (x - virtBase))
    (others : MapsWindow image middle after (x + 4096) count) :
    MapsWindow image before after x (count + 1) := by
  have nextEq := toNat_add_page below
  have frame : (x - virtBase).toNat = x.toNat - virtBase.toNat :=
    BitVec.toNat_sub_of_le window
  have baseAligned : 4096 ∣ virtBase.toNat := by decide
  refine
    { tables := others.tables
      inside := ?_
      outside := ?_ }
  · intro address lower upper
    by_cases inFirst : address.toNat < x.toNat + 4096
    · rw [others.outside address (Or.inl (by omega)),
        first.onPage address (by simp only [SamePage]; omega), frame]
      have phys :
          (x.toNat - virtBase.toNat) % 2 ^ 52 / 4096 * 4096 +
              address.toNat % 4096 =
            address.toNat - virtBase.toNat := by
        omega
      rw [phys]
    · exact others.inside address (by omega) (by omega)
  · intro address off
    rw [others.outside address (by omega),
      first.elsewhere address (by simp only [SamePage]; omega)]

/-- The loop maps one page after another, by induction on the pages that are
left. -/
theorem mapPages_spec
    {image : KernelImage} {machine : Machine} {x limit : U64}
    (fuel count : Nat)
    (tables : PageTables image machine)
    (aligned : 4096 ∣ x.toNat) (window : virtBase.toNat ≤ x.toNat)
    (below : limit.toNat < 2 ^ 47)
    (covers : limit.toNat ≤ x.toNat + 4096 * count)
    (tight : x.toNat + 4096 * count < limit.toNat + 4096)
    (enough : count < fuel)
    (room :
      HasRoom image (finalState (mapPages fuel x limit machine))) :
    ∃ after,
      mapPages fuel x limit machine = .ok () after ∧
        MapsWindow image machine after x count := by
  induction count generalizing fuel x machine with
  | zero =>
      rcases Nat.exists_eq_succ_of_ne_zero (by omega : fuel ≠ 0) with
        ⟨fuel, rfl⟩
      have done : ¬ x < limit := by
        rw [BitVec.lt_def]
        omega
      rw [mapPages, if_neg done]
      exact ⟨machine, rfl, MapsWindow.refl tables x⟩
  | succ count induction =>
      rcases Nat.exists_eq_succ_of_ne_zero (by omega : fuel ≠ 0) with
        ⟨fuel, rfl⟩
      have more : x < limit := by
        rw [BitVec.lt_def]
        omega
      have nextEq := toNat_add_page (by omega : x.toNat < 2 ^ 47)
      rw [mapPages, if_pos more] at room ⊢
      have firstRoom :=
        room.trans
          (NeverRaises.after_first
            (fun _ => mapPages_descends fuel (x + 4096) limit) machine)
      have canonical : Canonical x := by
        simp only [Canonical]
        omega
      have notLarge : ¬ InLargePages x := by
        have base : virtBase.toNat = 0xfff00000 := rfl
        simp only [InLargePages]
        omega
      rcases map_returns tables canonical notLarge firstRoom with
        ⟨middle, returns, maps⟩
      rw [bind_of_ok returns] at room ⊢
      rcases
          induction fuel maps.tables (by omega) (by omega) (by omega)
            (by omega) (by omega) room with
        ⟨after, runs, others⟩
      exact
        ⟨after, runs,
          MapsWindow.cons aligned window (by omega) maps others⟩

/-! ## One request -/

/-- The page of the first byte of a request, in the window. -/
def windowStart (whereAddr : U64) : U64 :=
  virtBase + (whereAddr &&& ~~~4095#64)

/-- The number of pages a call maps. -/
def pageCount (length : U64) : Nat :=
  (length.toNat + 4095) / 4096

/-- The pages cover the length, and no page less would. -/
theorem pageCount_bounds (length : U64) :
    length.toNat ≤ 4096 * pageCount length ∧
      4096 * pageCount length < length.toNat + 4096 := by
  simp only [pageCount]
  omega

/-- A request inside the window. -/
structure Request (whereAddr length : U64) : Prop where
  notEmpty : 1 ≤ length.toNat
  below : virtBase.toNat + whereAddr.toNat + length.toNat < 2 ^ 47

theorem toNat_roundDown (address : U64) :
    (address &&& ~~~4095#64).toNat = address.toNat / 4096 * 4096 := by
  have rounds : address &&& ~~~4095#64 = address >>> 12 <<< 12 := by
    apply BitVec.eq_of_getLsbD_eq
    intro bit inside
    have mask : (4095#64).getLsbD bit = decide (bit < 12) := by
      rw [show 4095#64 = BitVec.ofNat 64 (2 ^ 12 - 1) from rfl,
        BitVec.getLsbD_ofNat, Nat.testBit_two_pow_sub_one]
      simp [inside]
    simp only [BitVec.getLsbD_and, BitVec.getLsbD_not, mask,
      BitVec.getLsbD_shiftLeft, BitVec.getLsbD_ushiftRight, inside]
    by_cases low : bit < 12
    · simp [low]
    · have position : 12 + (bit - 12) = bit := by omega
      simp [low, position]
  have bound := address.isLt
  rw [rounds, BitVec.toNat_shiftLeft, BitVec.toNat_ushiftRight,
    Nat.shiftLeft_eq, Nat.shiftRight_eq_div_pow]
  omega

namespace Request

variable {whereAddr length : U64}

/-- A request starts on a page of the window, without overflow. -/
theorem toNat_start (request : Request whereAddr length) :
    (windowStart whereAddr).toNat =
      virtBase.toNat + whereAddr.toNat / 4096 * 4096 := by
  have below := request.below
  rw [windowStart, BitVec.toNat_add, toNat_roundDown]
  omega

/-- Its end does not overflow either. -/
theorem toNat_limit (request : Request whereAddr length) :
    (windowStart whereAddr + length).toNat =
      virtBase.toNat + whereAddr.toNat / 4096 * 4096 + length.toNat := by
  have below := request.below
  rw [BitVec.toNat_add, request.toNat_start]
  omega

theorem toNat_byte
    (request : Request whereAddr length) {i : Nat} (inside : i < length.toNat) :
    (virtBase + whereAddr + BitVec.ofNat 64 i).toNat =
      virtBase.toNat + whereAddr.toNat + i := by
  have below := request.below
  rw [BitVec.toNat_add, BitVec.toNat_add, BitVec.toNat_ofNat]
  omega

end Request

/-- A page takes at most four tables. -/
theorem mapPages_takes (fuel count : Nat) {x limit : U64}
    (below : limit.toNat < 2 ^ 47)
    (covers : limit.toNat ≤ x.toNat + 4096 * count) :
    TakesAtMost (4 * 4096 * count) (mapPages fuel x limit) := by
  induction count generalizing fuel x with
  | zero =>
      cases fuel with
      | zero => exact LowersAtMost.throw _
      | succ fuel =>
          have done : ¬ x < limit := by
            rw [BitVec.lt_def]
            omega
          rw [mapPages, if_neg done]
          exact LowersAtMost.pure _
  | succ count induction =>
      cases fuel with
      | zero => exact (LowersAtMost.throw _).weaken (Nat.zero_le _)
      | succ fuel =>
          rw [mapPages]
          by_cases more : x < limit
          · rw [if_pos more, Nat.mul_add, Nat.mul_one, Nat.add_comm]
            rw [BitVec.lt_def] at more
            have nextEq := toNat_add_page (by omega : x.toNat < 2 ^ 47)
            exact
              (map_takes _ _).bind fun _ => induction fuel (by omega)
          · rw [if_neg more]
            exact (LowersAtMost.pure _).weaken (Nat.zero_le _)

/-- A request maps as many pages as its length fills, from its own page on. -/
theorem acpiOsMapMemory_spec
    {image : KernelImage} {machine : Machine} {whereAddr length : U64}
    (tables : PageTables image machine)
    (request : Request whereAddr length)
    (room :
      HasRoom image
        (finalState (acpiOsMapMemory whereAddr length machine))) :
    ∃ after,
      acpiOsMapMemory whereAddr length machine =
          .ok (virtBase + whereAddr) after ∧
        MapsWindow image machine after (windowStart whereAddr)
          (pageCount length) := by
  have notEmpty := request.notEmpty
  have below := request.below
  have start := request.toNat_start
  have limit := request.toNat_limit
  have base : virtBase.toNat = 0xfff00000 := rfl
  have bound := length.isLt
  have loopRoom :
      HasRoom image
        (finalState
          (mapPages (2 ^ 64) (windowStart whereAddr)
            (windowStart whereAddr + length) machine)) :=
    room.trans
      (NeverRaises.after_first
        (fun _ => (touch_descends _).bind fun _ => NeverRaises.pure _)
        machine)
  have pages := pageCount_bounds length
  rcases
      mapPages_spec (2 ^ 64) (pageCount length) tables (by omega) (by omega)
        (by omega) (by omega) (by omega) (by omega) loopRoom with
    ⟨after, runs, maps⟩
  have first := request.toNat_byte (Nat.lt_of_lt_of_le Nat.one_pos notEmpty)
  have translated :=
    maps.inside (virtBase + whereAddr + BitVec.ofNat 64 0) (by omega)
      (by omega)
  refine ⟨after, ?_, maps⟩
  rw [BitVec.add_zero] at translated
  rw [acpiOsMapMemory, ← windowStart, bind_of_ok runs,
    bind_of_ok (touch_run_of_some translated)]
  rfl

/-- A request costs at most four pages for each page it maps. -/
theorem acpiOsMapMemory_takes
    {whereAddr length : U64} (request : Request whereAddr length) :
    TakesAtMost (4 * 4096 * pageCount length)
      (acpiOsMapMemory whereAddr length) := by
  have start := request.toNat_start
  have limit := request.toNat_limit
  have below := request.below
  have pages := pageCount_bounds length
  have loop :
      TakesAtMost (4 * 4096 * pageCount length)
        (mapPages (2 ^ 64) (windowStart whereAddr)
          (windowStart whereAddr + length)) :=
    mapPages_takes _ _ (by omega) (by omega)
  exact
    loop.bind fun _ => (touch_takes _).bind fun _ => LowersAtMost.pure _

/-! ## Where the whole request is mapped -/

/-- The page after the last one mapped. -/
def nextPageOf (whereAddr length : U64) : U64 :=
  windowStart whereAddr + BitVec.ofNat 64 (4096 * pageCount length)

section Coverage

variable {image : KernelImage} {before after : Machine}
    {whereAddr length : U64}

theorem Request.toNat_nextPageOf (request : Request whereAddr length) :
    (nextPageOf whereAddr length).toNat =
      virtBase.toNat + whereAddr.toNat / 4096 * 4096 +
        4096 * pageCount length := by
  have below := request.below
  have start := request.toNat_start
  have pages := pageCount_bounds length
  rw [nextPageOf, BitVec.toNat_add, start, BitVec.toNat_ofNat]
  omega

/-- A byte of a page counted by the length is mapped. -/
theorem MapsWindow.byte_of_fits
    (maps :
      MapsWindow image before after (windowStart whereAddr)
        (pageCount length))
    (request : Request whereAddr length) {i : Nat}
    (inside : i < length.toNat)
    (fits : whereAddr.toNat % 4096 + i < 4096 * pageCount length) :
    (after.walk (virtBase + whereAddr + BitVec.ofNat 64 i)).map
        Translation.phys =
      some (whereAddr.toNat + i) := by
  have byte := request.toNat_byte inside
  have start := request.toNat_start
  rw [maps.inside _ (by omega) (by omega)]
  simp only [Option.map_some, Option.some.injEq]
  omega

/-- A byte behind these pages is mapped by an earlier mapping of its page. -/
theorem MapsWindow.byte_of_nextPage
    (maps :
      MapsWindow image before after (windowStart whereAddr)
        (pageCount length))
    (request : Request whereAddr length) {i : Nat}
    (inside : i < length.toNat)
    (behind : 4096 * pageCount length ≤ whereAddr.toNat % 4096 + i)
    (mapped :
      (before.walk (nextPageOf whereAddr length)).map Translation.phys =
        some (whereAddr.toNat / 4096 * 4096 + 4096 * pageCount length)) :
    (after.walk (virtBase + whereAddr + BitVec.ofNat 64 i)).map
        Translation.phys =
      some (whereAddr.toNat + i) := by
  have below := request.below
  have byte := request.toNat_byte inside
  have start := request.toNat_start
  have nextEq := request.toNat_nextPageOf
  have pages := pageCount_bounds length
  have base : virtBase.toNat = 0xfff00000 := rfl
  rw [Option.map_eq_some_iff] at mapped
  rcases mapped with ⟨found, translated, phys⟩
  have same :
      SamePage (virtBase + whereAddr + BitVec.ofNat 64 i)
        (nextPageOf whereAddr length) := by
    simp only [SamePage]
    omega
  rw [maps.outside _ (Or.inr (by omega)), Machine.walk,
    walk_of_samePage (by omega) same translated]
  simp only [Option.map_some, Option.some.injEq]
  omega

/-- A request which ends on the next page and is mapped has that page mapped. -/
theorem MapsWindow.nextPage_of_covers
    (maps :
      MapsWindow image before after (windowStart whereAddr)
        (pageCount length))
    (request : Request whereAddr length)
    (covers :
      ∀ i < length.toNat,
        (after.walk (virtBase + whereAddr + BitVec.ofNat 64 i)).map
            Translation.phys =
          some (whereAddr.toNat + i))
    (beyond :
      4096 * pageCount length < whereAddr.toNat % 4096 + length.toNat) :
    (before.walk (nextPageOf whereAddr length)).map Translation.phys =
      some (whereAddr.toNat / 4096 * 4096 + 4096 * pageCount length) := by
  have start := request.toNat_start
  have nextEq := request.toNat_nextPageOf
  have notEmpty := request.notEmpty
  have pages := pageCount_bounds length
  have crossing :
      4096 * pageCount length - whereAddr.toNat % 4096 < length.toNat := by
    omega
  have covered := covers _ crossing
  have sameAddress :
      virtBase + whereAddr +
          BitVec.ofNat 64
            (4096 * pageCount length - whereAddr.toNat % 4096) =
        nextPageOf whereAddr length := by
    apply BitVec.eq_of_toNat_eq
    rw [request.toNat_byte crossing, nextEq]
    omega
  rw [sameAddress, maps.outside _ (Or.inr (by omega))] at covered
  rw [covered, Option.some.injEq]
  omega

end Coverage

/--
A returned request maps its whole range exactly if its last byte lies in a
page counted by the length, or the next page was mapped already.
-/
theorem acpiOsMapMemory_covers_iff
    {image : KernelImage} {rest : Memory} {calls : List MapCall}
    {before after : Machine} {whereAddr length rv : U64}
    (run : MapRun image rest calls before)
    (request : Request whereAddr length)
    (returns :
      acpiOsMapMemory whereAddr length before = .ok rv after)
    (room : HasRoom image after) :
    (∀ i < length.toNat,
        (after.walk (rv + BitVec.ofNat 64 i)).map Translation.phys =
          some (whereAddr.toNat + i)) ↔
      whereAddr.toNat % 4096 + length.toNat ≤ 4096 * pageCount length ∨
        (before.walk (nextPageOf whereAddr length)).map Translation.phys =
          some
            (whereAddr.toNat / 4096 * 4096 + 4096 * pageCount length) := by
  have specRoom :
      HasRoom image
        (finalState (acpiOsMapMemory whereAddr length before)) := by
    rw [returns]
    exact room
  rcases acpiOsMapMemory_spec (pageTables_of_run run) request specRoom with
    ⟨other, runs, maps⟩
  rw [returns] at runs
  simp only [EStateM.Result.ok.injEq] at runs
  rcases runs with ⟨rfl, rfl⟩
  constructor
  · intro covers
    by_cases fits :
        whereAddr.toNat % 4096 + length.toNat ≤ 4096 * pageCount length
    · exact Or.inl fits
    · exact Or.inr (maps.nextPage_of_covers request covers (by omega))
  · intro condition i inside
    by_cases fits : whereAddr.toNat % 4096 + i < 4096 * pageCount length
    · exact maps.byte_of_fits request inside fits
    · rcases condition with reaches | mapped
      · omega
      · exact maps.byte_of_nextPage request inside (by omega) mapped

/-- A request of one page in the boot state. -/
theorem smallBoot_request
    {whereAddr length : U64} (request : Request whereAddr length)
    (short : length.toNat ≤ 4096) :
    ∃ after,
      acpiOsMapMemory whereAddr length smallBoot =
          .ok (virtBase + whereAddr) after ∧
        MapsWindow smallImage smallBoot after (windowStart whereAddr)
          (pageCount length) ∧
        HasRoom smallImage after := by
  have takes := acpiOsMapMemory_takes request smallBoot
  have few : pageCount length ≤ 1 := by
    simp only [pageCount]
    omega
  have available :
      (smallImage.edata : Int) + 4 * 4096 ≤ smallBoot.allocationAddr := by
    decide
  have room :
      HasRoom smallImage
        (finalState (acpiOsMapMemory whereAddr length smallBoot)) := by
    simp only [HasRoom]
    omega
  rcases
      acpiOsMapMemory_spec (pageTables_boot smallImage _) request room with
    ⟨after, returns, maps⟩
  rw [returns] at room
  exact ⟨after, returns, maps, room⟩

/-- The two bytes of the EBDA segment pointer. -/
theorem acpiOsMapMemory_covers_iff_ebda :
    ∃ rv after,
      acpiOsMapMemory 0x40e 2 smallBoot = .ok rv after ∧
        ∀ i < 2,
          (after.walk (rv + BitVec.ofNat 64 i)).map Translation.phys =
            some (0x40e + i) := by
  have request : Request 0x40e 2 := ⟨by decide, by decide⟩
  rcases smallBoot_request request (by decide) with
    ⟨after, returns, -, room⟩
  have covers :=
    acpiOsMapMemory_covers_iff .start request returns room
  exact ⟨_, after, returns, covers.2 (Or.inl (by decide))⟩

/-- Two bytes which straddle a page boundary. -/
theorem acpiOsMapMemory_misses_second_page :
    Request 0xfff 2 ∧
      ∃ rv after,
        acpiOsMapMemory 0xfff 2 smallBoot = .ok rv after ∧
          HasRoom smallImage after ∧
            after.walk (rv + BitVec.ofNat 64 1) = none := by
  have request : Request 0xfff 2 := ⟨by decide, by decide⟩
  rcases smallBoot_request request (by decide) with
    ⟨after, returns, maps, room⟩
  refine ⟨request, _, after, returns, room, ?_⟩
  rw [maps.outside _ (by decide)]
  exact walk_boot_outside _ _ (by decide)

end NopOS.Acpi.MapMemory
