import NopOS.Acpi.MappingRuns
import NopOS.Acpi.InterruptHandlers

/-!
# `AcpiOsGetPhysicalAddress`

The function returns its argument, while `AcpiOsMapMemory` maps memory at a
distance from itself.  A call may ask for any address and any length: the
address which is mapped may wrap, and its upper bits are replaced when the
`vaddr` is built.  All that is needed of it is that it differs from the frame
by `virt_base` in the lower 48 bits, which are never all zero.
-/

namespace NopOS.Acpi.PhysicalAddress

open NopOS.Lib.BitField
open NopOS.Lib.StatefulProgram
open NopOS.Lib.LabelledRun
open NopOS.Mmu.PageTableEntry
open NopOS.Mmu.AddressTranslation
open NopOS.Mmu.PhysicalMachine
open NopOS.Mmu.Mapper
open NopOS.Mmu.MapperSpecs
open NopOS.Mmu.TableInvariant
open NopOS.Mmu.MapRefinement
open NopOS.Mmu.MapRuns
open NopOS.Acpi.InterruptHandlers (AcpiStatus)
open NopOS.Acpi.MapMemory

/-- `AcpiOsGetPhysicalAddress`, with what it stores in `*PhysicalAddress`. -/
def acpiOsGetPhysicalAddress (logicalAddress : U64) : AcpiStatus × U64 :=
  (.ok, logicalAddress)

/-! ## Addresses which are not canonical -/

/-- The canonical address with the same lower 48 bits. -/
def canonicalOf (v : U64) : U64 :=
  BitVec.ofNat 64
    (if v.toNat % 2 ^ 48 < 2 ^ 47 then v.toNat % 2 ^ 48
    else 2 ^ 64 - 2 ^ 48 + v.toNat % 2 ^ 48)

/-- The upper bits repeat bit 47. -/
theorem toNat_canonicalOf (v : U64) :
    (canonicalOf v).toNat =
      if v.toNat % 2 ^ 48 < 2 ^ 47 then v.toNat % 2 ^ 48
      else 2 ^ 64 - 2 ^ 48 + v.toNat % 2 ^ 48 := by
  rw [canonicalOf, BitVec.toNat_ofNat]
  apply Nat.mod_eq_of_lt
  split <;> omega

theorem canonical_canonicalOf (v : U64) : Canonical (canonicalOf v) := by
  rw [Canonical, toNat_canonicalOf]
  split <;> omega

theorem canonicalOf_mod (v : U64) :
    (canonicalOf v).toNat % 2 ^ 48 = v.toNat % 2 ^ 48 := by
  rw [toNat_canonicalOf]
  split <;> omega

/-- The mapper reads the indices of an address only. -/
theorem map_canonicalOf (v p : U64) :
    map (Vaddr.ofU64 (canonicalOf v)) p = map (Vaddr.ofU64 v) p := by
  have low := canonicalOf_mod v
  have l4 : (Vaddr.ofU64 (canonicalOf v)).PML4 = (Vaddr.ofU64 v).PML4 := by
    apply Fin.ext
    rw [Vaddr.PML4_ofU64, Vaddr.PML4_ofU64]
    omega
  have l3 :
      (Vaddr.ofU64 (canonicalOf v)).directoryPtr =
        (Vaddr.ofU64 v).directoryPtr := by
    apply Fin.ext
    rw [Vaddr.directoryPtr_ofU64, Vaddr.directoryPtr_ofU64]
    omega
  have l2 :
      (Vaddr.ofU64 (canonicalOf v)).directory = (Vaddr.ofU64 v).directory := by
    apply Fin.ext
    rw [Vaddr.directory_ofU64, Vaddr.directory_ofU64]
    omega
  have l1 : (Vaddr.ofU64 (canonicalOf v)).table = (Vaddr.ofU64 v).table := by
    apply Fin.ext
    rw [Vaddr.table_ofU64, Vaddr.table_ofU64]
    omega
  rw [map, map, l4, l3, l2, l1]

/-- A call of the mapper which returned, for any address. -/
theorem mapsPage_of_returns
    {image : KernelImage} {before after : Machine} {v p : U64}
    (tables : PageTables image before)
    (returns : map (Vaddr.ofU64 v) p before = .ok () after)
    (room : HasRoom image after) :
    MapsPage image before after (canonicalOf v) p := by
  rw [← map_canonicalOf] at returns
  have callRoom :
      (image.edata : Int) ≤
        (finalState
          (map (Vaddr.ofU64 (canonicalOf v)) p before)).allocationAddr := by
    rw [returns]
    exact room
  have canonical := canonical_canonicalOf v
  by_cases large : InLargePages (canonicalOf v)
  · rcases map_fails tables canonical large callRoom with ⟨failed, fails⟩
    rw [returns] at fails
    cases fails
  · rcases map_returns tables canonical large callRoom with
      ⟨other, runs, maps⟩
    rw [returns] at runs
    cases runs
    exact maps

/-! ## The pages of the loop -/

/-- Two addresses whose lower 48 bits lie in one page. -/
def SameSlot (first second : U64) : Prop :=
  first.toNat % 2 ^ 48 / 4096 = second.toNat % 2 ^ 48 / 4096

instance (first second : U64) : Decidable (SameSlot first second) :=
  inferInstanceAs (Decidable (_ = _))

theorem samePage_canonicalOf
    {address v : U64} (canonical : Canonical address) :
    SamePage address (canonicalOf v) ↔ SameSlot address v := by
  have low := canonicalOf_mod v
  have other := canonical_canonicalOf v
  simp only [SamePage, SameSlot, Canonical] at *
  omega

/-- The loop from `x` up to `limit` maps the page of an address. -/
def LoopCovers (x limit address : U64) : Prop :=
  ∃ k : Nat,
    (∀ j ≤ k, x + BitVec.ofNat 64 (4096 * j) < limit) ∧
      SameSlot address (x + BitVec.ofNat 64 (4096 * k))

theorem add_page (x : U64) (k : Nat) :
    x + 4096 + BitVec.ofNat 64 (4096 * k) =
      x + BitVec.ofNat 64 (4096 * (k + 1)) := by
  apply BitVec.eq_of_toNat_eq
  have page : (4096 : U64).toNat = 4096 := rfl
  simp only [BitVec.toNat_add, BitVec.toNat_ofNat, page]
  omega

theorem loopCovers_of_not_lt
    {x limit address : U64} (done : ¬ x < limit) :
    ¬ LoopCovers x limit address := by
  rintro ⟨k, below, -⟩
  have first := below 0 (Nat.zero_le k)
  rw [Nat.mul_zero, BitVec.add_zero] at first
  exact done first

/-- The loop covers its first page and what the rest covers. -/
theorem loopCovers_iff
    {x limit address : U64} (more : x < limit) :
    LoopCovers x limit address ↔
      SameSlot address x ∨ LoopCovers (x + 4096) limit address := by
  have start : x + BitVec.ofNat 64 (4096 * 0) = x := by simp
  constructor
  · rintro ⟨k, below, same⟩
    cases k with
    | zero =>
        rw [start] at same
        exact Or.inl same
    | succ k =>
        refine Or.inr ⟨k, ?_, ?_⟩
        · intro j inside
          rw [add_page]
          exact below (j + 1) (Nat.succ_le_succ inside)
        · rw [add_page]
          exact same
  · rintro (same | ⟨k, below, same⟩)
    · refine ⟨0, ?_, ?_⟩
      · intro j none
        rw [Nat.le_zero.1 none, start]
        exact more
      · rw [start]
        exact same
    · refine ⟨k + 1, ?_, ?_⟩
      · intro j inside
        cases j with
        | zero =>
            rw [start]
            exact more
        | succ j =>
            rw [← add_page]
            exact below j (Nat.le_of_succ_le_succ inside)
      · rw [← add_page]
        exact same

/-- A physical address is the logical one less `virt_base`, in 48 bits. -/
def Displaced (address : U64) (phys : Nat) : Prop :=
  (phys + virtBase.toNat) % 2 ^ 48 = address.toNat % 2 ^ 48

/-- No address is displaced to itself. -/
theorem not_displaced_self (address : U64) :
    ¬ Displaced address address.toNat := by
  have base : virtBase.toNat = 0xfff00000 := rfl
  simp only [Displaced]
  omega

/-- What the loop does to the translations. -/
structure LoopMaps (image : KernelImage) (before after : Machine)
    (x limit : U64) : Prop where
  tables : PageTables image after
  covered :
    ∀ address found,
      LoopCovers x limit address →
        after.walk address = some found → Displaced address found.phys
  kept :
    ∀ address,
      ¬ LoopCovers x limit address →
        after.walk address = before.walk address

/-- Only canonical addresses have a translation. -/
theorem canonical_of_walk
    {machine : Machine} {address : U64} {found : Translation}
    (translated : machine.walk address = some found) :
    Canonical address := by
  by_contra notCanonical
  rw [Machine.walk, walk, if_neg notCanonical] at translated
  cases translated

/-- An address of a mapped page is displaced by `virt_base`. -/
theorem displaced_of_mapsPage
    {image : KernelImage} {before after : Machine} {x address : U64}
    {found : Translation}
    (maps : MapsPage image before after (canonicalOf x) (x - virtBase))
    (same : SameSlot address x)
    (translated : after.walk address = some found) :
    Displaced address found.phys := by
  have canonical := canonical_of_walk translated
  have base : virtBase.toNat = 0xfff00000 := rfl
  rw [maps.onPage address ((samePage_canonicalOf canonical).2 same),
    Option.some.injEq] at translated
  subst found
  have frame : (x - virtBase).toNat = (2 ^ 64 - virtBase.toNat + x.toNat) % 2 ^ 64 :=
    BitVec.toNat_sub _ _
  simp only [Displaced, SameSlot] at *
  rw [frame]
  omega

/-- The other pages are left alone. -/
theorem walk_off_slot
    {image : KernelImage} {before after : Machine} {x p address : U64}
    (maps : MapsPage image before after (canonicalOf x) p)
    (different : ¬ SameSlot address x) :
    after.walk address = before.walk address := by
  by_cases canonical : Canonical address
  · exact maps.elsewhere address (mt (samePage_canonicalOf canonical).1 different)
  · rw [Machine.walk, Machine.walk, walk, walk, if_neg canonical,
      if_neg canonical]

/-- What the loop has mapped once it returns, by induction on its turns. -/
theorem loopMaps_of_returns
    {image : KernelImage} {before after : Machine} {fuel : Nat} {x limit : U64}
    (tables : PageTables image before)
    (returns : mapPages fuel x limit before = .ok () after)
    (room : HasRoom image after) :
    LoopMaps image before after x limit := by
  induction fuel generalizing before x with
  | zero => cases returns
  | succ fuel induction =>
      rw [mapPages] at returns
      by_cases more : x < limit
      · rw [if_pos more] at returns
        rcases ok_of_bind returns with ⟨⟨⟩, middle, first, later⟩
        have middleRoom : HasRoom image middle := by
          have descends := mapPages_descends fuel (x + 4096) limit middle
          rw [later] at descends
          exact room.trans descends
        have maps := mapsPage_of_returns tables first middleRoom
        have rest := induction maps.tables later
        refine
          { tables := rest.tables
            covered := ?_
            kept := ?_ }
        · intro address found covers translated
          by_cases again : LoopCovers (x + 4096) limit address
          · exact rest.covered address found again translated
          · rw [rest.kept address again] at translated
            exact
              displaced_of_mapsPage maps
                (((loopCovers_iff more).1 covers).resolve_right again)
                translated
        · intro address spared
          rw [loopCovers_iff more, not_or] at spared
          rw [rest.kept address spared.2, walk_off_slot maps spared.1]
      · rw [if_neg more] at returns
        cases returns
        exact
          { tables := tables
            covered := fun _ _ covers =>
              absurd covers (loopCovers_of_not_lt more)
            kept := fun _ _ => rfl }

/-! ## Runs of arbitrary requests -/

/-- The arguments of a call, of which nothing is required. -/
structure MapRequest where
  whereAddr : U64
  length : U64

/-- The call maps the page of an address. -/
def MapRequest.Covers (call : MapRequest) (address : U64) : Prop :=
  LoopCovers (windowStart call.whereAddr)
    (windowStart call.whereAddr + call.length) address

/-- A call of `AcpiOsMapMemory` which returned. -/
structure RequestStep (image : KernelImage) (before : Machine)
    (call : MapRequest) (after : Machine) : Prop where
  returns :
    ∃ rv, acpiOsMapMemory call.whereAddr call.length before = .ok rv after
  room : HasRoom image after

/-- Mapping calls one after the other from the boot state. -/
abbrev RequestRun (image : KernelImage) (rest : Memory) :=
  Run (RequestStep image) (Machine.boot image rest)

/-- One of the calls has mapped the page of an address. -/
def Covered (calls : List MapRequest) (address : U64) : Prop :=
  ∃ call ∈ calls, call.Covers address

variable
    {image : KernelImage} {rest : Memory} {calls : List MapRequest}
    {before after machine : Machine} {call : MapRequest}

/-- A request maps what its loop covers. -/
theorem RequestStep.loopMaps
    (step : RequestStep image before call after)
    (tables : PageTables image before) :
    LoopMaps image before after (windowStart call.whereAddr)
      (windowStart call.whereAddr + call.length) := by
  rcases step.returns with ⟨rv, returns⟩
  rcases ok_of_bind returns with ⟨⟨⟩, middle, loop, tail⟩
  rcases ok_of_bind tail with ⟨⟨⟩, last, touched, done⟩
  cases done
  have same : middle = after := by
    cases found : middle.walk (virtBase + call.whereAddr) with
    | none =>
        rw [touch, bind_of_ok (get_run middle), found] at touched
        cases touched
    | some translation =>
        rw [touch_run_of_some found] at touched
        cases touched
        rfl
  subst same
  exact loopMaps_of_returns tables loop step.room

/-- Where the translations of a state come from. -/
structure Translates (image : KernelImage) (calls : List MapRequest)
    (machine : Machine) : Prop where
  tables : PageTables image machine
  covered :
    ∀ address found,
      Covered calls address →
        machine.walk address = some found → Displaced address found.phys
  untouched :
    ∀ address found,
      ¬ Covered calls address →
        machine.walk address = some found → found.phys = address.toNat

theorem covered_append (address : U64) :
    Covered (calls ++ [call]) address ↔
      Covered calls address ∨ call.Covers address := by
  simp only [Covered, List.mem_append, List.mem_singleton, or_and_right,
    exists_or, exists_eq_left]

/-- Before any request the addresses of the first GiB lead to themselves. -/
theorem translates_boot (image : KernelImage) (rest : Memory) :
    Translates image [] (Machine.boot image rest) where
  tables := pageTables_boot image rest
  covered := by
    rintro address found ⟨call, member, -⟩
    cases member
  untouched := by
    intro address found _ translated
    by_cases inFirst : address.toNat < 2 ^ 30
    · rw [walk_boot_inside image rest inFirst] at translated
      cases translated
      rfl
    · rw [walk_boot_outside image rest (not_lt.1 inFirst)] at translated
      cases translated

/-- A request displaces what it covers and keeps the rest. -/
theorem translates_step
    (translates : Translates image calls before)
    (step : RequestStep image before call after) :
    Translates image (calls ++ [call]) after := by
  have maps := step.loopMaps translates.tables
  refine
    { tables := maps.tables
      covered := ?_
      untouched := ?_ }
  · intro address found covers translated
    by_cases byLast : call.Covers address
    · exact maps.covered address found byLast translated
    · rw [maps.kept address byLast] at translated
      exact
        translates.covered address found
          (((covered_append address).1 covers).resolve_right byLast)
          translated
  · intro address found spared translated
    rw [covered_append, not_or] at spared
    rw [maps.kept address spared.2] at translated
    exact translates.untouched address found spared.1 translated

/-- After any run an address is displaced if some request covered it. -/
theorem translates_of_run (run : RequestRun image rest calls machine) :
    Translates image calls machine :=
  run.invariant_with_history (Translates image)
    (translates_boot image rest)
    fun _ _ _ _ _ translates step => translates_step translates step

/-! ## What the function returns -/

/--
The physical address is returned exactly for the addresses which no call has
mapped: those the boot tables map to themselves.
-/
theorem getPhysicalAddress_inverts_iff
    {image : KernelImage} {rest : Memory} {calls : List MapRequest}
    {machine : Machine} {address : U64} {found : Translation}
    (run : RequestRun image rest calls machine)
    (translated : machine.walk address = some found) :
    ((acpiOsGetPhysicalAddress address).1 = .ok ∧
        (acpiOsGetPhysicalAddress address).2.toNat = found.phys) ↔
      ¬ Covered calls address := by
  have translates := translates_of_run run
  constructor
  · rintro ⟨-, same⟩ covers
    have displaced := translates.covered address found covers translated
    rw [← same] at displaced
    exact not_displaced_self address displaced
  · intro spared
    exact ⟨rfl, (translates.untouched address found spared translated).symm⟩

/-- A run of one request, for the EBDA segment pointer. -/
theorem ebda_run :
    ∃ after,
      RequestRun smallImage (fun _ => 0) [⟨0x40e, 2⟩] after ∧
        acpiOsMapMemory 0x40e 2 smallBoot = .ok 0xfff0040e after ∧
          after.walk 0xfff0040e = some { phys := 0x40e, writable := true } ∧
            after.walk 0x1000 =
              some { phys := 0x1000, writable := true } := by
  have request : Request 0x40e 2 := ⟨by decide, by decide⟩
  rcases smallBoot_request request (by decide) with
    ⟨after, returns, maps, room⟩
  refine ⟨after, .step .start ⟨⟨_, returns⟩, room⟩, returns, ?_, ?_⟩
  · exact maps.inside 0xfff0040e (by decide) (by decide)
  · rw [maps.outside 0x1000 (by decide)]
    exact walk_boot_inside _ _ (by decide)

/-- A request for the BIOS data area leaves an address elsewhere as it was. -/
theorem getPhysicalAddress_inverts_iff_identity :
    ∃ after found,
      RequestRun smallImage (fun _ => 0) [⟨0x40e, 2⟩] after ∧
        after.walk 0x1000 = some found ∧
          (acpiOsGetPhysicalAddress 0x1000).2.toNat = found.phys := by
  rcases ebda_run with ⟨after, run, -, -, translated⟩
  have spared : ¬ Covered [⟨0x40e, 2⟩] 0x1000 := by
    rintro ⟨call, member, covers⟩
    rw [List.mem_singleton.1 member, MapRequest.Covers,
      loopCovers_iff (by decide)] at covers
    rcases covers with same | later
    · revert same
      decide
    · exact loopCovers_of_not_lt (by decide) later
  exact
    ⟨after, _, run, translated,
      ((getPhysicalAddress_inverts_iff run translated).2 spared).2⟩

/-- The pointer `AcpiOsMapMemory` returned is taken for a physical address. -/
theorem getPhysicalAddress_of_window :
    ∃ after,
      RequestRun smallImage (fun _ => 0) [⟨0x40e, 2⟩] after ∧
        acpiOsMapMemory 0x40e 2 smallBoot = .ok 0xfff0040e after ∧
          after.walk 0xfff0040e = some { phys := 0x40e, writable := true } ∧
            acpiOsGetPhysicalAddress 0xfff0040e = (.ok, 0xfff0040e) ∧
              (acpiOsGetPhysicalAddress 0xfff0040e).2.toNat ≠ 0x40e := by
  rcases ebda_run with ⟨after, run, returns, translated, -⟩
  exact ⟨after, run, returns, translated, rfl, by decide⟩

end NopOS.Acpi.PhysicalAddress
