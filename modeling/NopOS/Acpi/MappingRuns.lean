import NopOS.Acpi.MapMemory

/-!
# Runs of mapping requests

All ACPI mappings lie at one distance from the memory they map, and the
window never meets the first GiB.  Overlapping requests therefore write the
same translations, and no request changes one that exists.
-/

namespace NopOS.Acpi.MappingRuns

open NopOS.Lib.StatefulProgram
open NopOS.Lib.LabelledRun
open NopOS.Mmu.PageTableEntry
open NopOS.Mmu.AddressTranslation
open NopOS.Mmu.PhysicalMachine
open NopOS.Mmu.TableInvariant
open NopOS.Mmu.MapRuns
open NopOS.Acpi.MapMemory

/-- A call of the ACPI layer which concerns mappings. -/
inductive AcpiCall where
  | mapMemory (whereAddr length : U64)
  | unmapMemory (logicalAddress size : U64)

namespace AcpiCall

/-- A call which ACPICA may make. -/
def Valid : AcpiCall → Prop
  | mapMemory whereAddr length => Request whereAddr length
  | unmapMemory _ _ => True

/-- What a call does to the machine. -/
def perform : AcpiCall → Exec Unit
  | mapMemory whereAddr length => do
      let _ ← acpiOsMapMemory whereAddr length
  | unmapMemory logicalAddress size =>
      acpiOsUnmapMemory logicalAddress size

end AcpiCall

/-- A valid call which returned. -/
structure AcpiStep (image : KernelImage) (before : Machine)
    (call : AcpiCall) (after : Machine) : Prop where
  valid : call.Valid
  returns : call.perform before = .ok () after
  room : HasRoom image after

/-- Calls one after the other from the boot state. -/
abbrev AcpiRun (image : KernelImage) (rest : Memory) :=
  Run (AcpiStep image) (Machine.boot image rest)

/-- What the ACPI layer has mapped, and what it has left alone. -/
structure Window (image : KernelImage) (machine : Machine) : Prop where
  tables : PageTables image machine
  firstGiB :
    ∀ address : U64, address.toNat < 2 ^ 30 →
      machine.walk address =
        some { phys := address.toNat, writable := true }
  others :
    ∀ address : U64, 2 ^ 30 ≤ address.toNat →
      ∀ found, machine.walk address = some found →
        found =
          { phys := address.toNat - virtBase.toNat
            writable := true }

/-- The boot code maps the first GiB, and nothing in the window. -/
theorem window_boot (image : KernelImage) (rest : Memory) :
    Window image (Machine.boot image rest) where
  tables := pageTables_boot image rest
  firstGiB := fun _ inFirst => walk_boot_inside image rest inFirst
  others := by
    intro address outside found translated
    rw [walk_boot_outside image rest outside] at translated
    simp at translated

/-- What a call may do to the translations. -/
structure KeepsTranslations (image : KernelImage) (before after : Machine) :
    Prop where
  window : Window image after
  keeps :
    ∀ address found,
      before.walk address = some found → after.walk address = some found

/-- Mapping pages of the window changes no translation in place. -/
theorem keepsTranslations_of_mapsWindow
    {image : KernelImage} {before after : Machine} {x : U64} {count : Nat}
    (window : Window image before) (inWindow : virtBase.toNat ≤ x.toNat)
    (maps : MapsWindow image before after x count) :
    KeepsTranslations image before after := by
  have base : virtBase.toNat = 0xfff00000 := rfl
  refine
    { window :=
        { tables := maps.tables
          firstGiB := ?_
          others := ?_ }
      keeps := ?_ }
  · intro address inFirst
    rw [maps.outside address (Or.inl (by omega))]
    exact window.firstGiB address inFirst
  · intro address outside found translated
    by_cases inside :
        x.toNat ≤ address.toNat ∧ address.toNat < x.toNat + 4096 * count
    · rw [maps.inside address inside.1 inside.2] at translated
      exact (Option.some.inj translated).symm
    · rw [maps.outside address (by omega)] at translated
      exact window.others address outside found translated
  · intro address found translated
    by_cases inside :
        x.toNat ≤ address.toNat ∧ address.toNat < x.toNat + 4096 * count
    · rw [maps.inside address inside.1 inside.2,
        window.others address (by omega) found translated]
    · rw [maps.outside address (by omega)]
      exact translated

section Calls

variable
    {image : KernelImage} {rest : Memory} {machine : Machine}
    {calls : List AcpiCall}

/-- A valid call returns and keeps the translations there are. -/
theorem perform_spec
    (window : Window image machine) {call : AcpiCall} (valid : call.Valid)
    (room : HasRoom image (finalState (call.perform machine))) :
    ∃ after,
      call.perform machine = .ok () after ∧
        KeepsTranslations image machine after ∧
        ∀ whereAddr length, call = .mapMemory whereAddr length →
          MapsWindow image machine after (windowStart whereAddr)
            (pageCount length) := by
  cases call with
  | mapMemory whereAddr length =>
      have request : Request whereAddr length := valid
      have callRoom :=
        room.trans
          (NeverRaises.after_first (fun _ => NeverRaises.pure ()) machine)
      rcases acpiOsMapMemory_spec window.tables request callRoom with
        ⟨after, returns, maps⟩
      have start := request.toNat_start
      refine
        ⟨after, bind_of_ok returns,
          keepsTranslations_of_mapsWindow window (by omega) maps, ?_⟩
      rintro other otherLength same
      cases same
      exact maps
  | unmapMemory logicalAddress size =>
      exact
        ⟨machine, rfl, ⟨window, fun _ _ translated => translated⟩,
          by simp⟩

/-- What a request takes of the memory for tables. -/
theorem perform_takes
    {whereAddr length : U64} (request : Request whereAddr length) :
    TakesAtMost (4 * 4096 * pageCount length)
      (AcpiCall.perform (.mapMemory whereAddr length)) :=
  (acpiOsMapMemory_takes request).bind fun _ => LowersAtMost.pure ()

/-- A step of a run keeps the translations there are. -/
theorem AcpiStep.spec
    {before after : Machine} {call : AcpiCall}
    (window : Window image before)
    (step : AcpiStep image before call after) :
    KeepsTranslations image before after ∧
      ∀ whereAddr length, call = .mapMemory whereAddr length →
        MapsWindow image before after (windowStart whereAddr)
          (pageCount length) := by
  have room : HasRoom image (finalState (call.perform before)) := by
    rw [step.returns]
    exact step.room
  rcases perform_spec window step.valid room with
    ⟨other, returns, effect⟩
  rw [step.returns] at returns
  simp only [EStateM.Result.ok.injEq, true_and] at returns
  subst other
  exact effect

/-- The window is as the calls have left it, after every run. -/
theorem window_of_run (run : AcpiRun image rest calls machine) :
    Window image machine :=
  run.invariant (Window image) (window_boot image rest)
    fun _ _ _ window step => (step.spec window).1.window

/-- Every mapping returned so far is in place. -/
theorem mapped_of_run (run : AcpiRun image rest calls machine) :
    ∀ whereAddr length, .mapMemory whereAddr length ∈ calls →
      ∀ address : U64,
        (windowStart whereAddr).toNat ≤ address.toNat →
          address.toNat <
              (windowStart whereAddr).toNat + 4096 * pageCount length →
            machine.walk address =
              some
                { phys := address.toNat - virtBase.toNat
                  writable := true } := by
  refine
    run.invariant_with_history
      (fun calls machine =>
        ∀ whereAddr length, .mapMemory whereAddr length ∈ calls →
          ∀ address : U64,
            (windowStart whereAddr).toNat ≤ address.toNat →
              address.toNat <
                  (windowStart whereAddr).toNat + 4096 * pageCount length →
                machine.walk address =
                  some
                    { phys := address.toNat - virtBase.toNat
                      writable := true })
      (by simp) ?_
  intro calls call before after earlier history step
  rcases step.spec (window_of_run earlier) with ⟨keeps, maps⟩
  intro whereAddr length member address lower upper
  rcases List.mem_append.1 member with member | last
  · exact
      keeps.keeps _ _
        (history whereAddr length member address lower upper)
  · exact
      (maps whereAddr length (List.mem_singleton.1 last).symm).inside
        address lower upper

end Calls

/-! ## Every request returns and keeps all translations -/

/-- Whatever calls came before, the next valid one returns and leaves every
translation as it was, those of the first GiB and those of earlier windows
included. -/
theorem acpi_calls_keep_translations
    {image : KernelImage} {rest : Memory} {calls : List AcpiCall}
    {before : Machine} {call : AcpiCall}
    (run : AcpiRun image rest calls before)
    (valid : call.Valid)
    (room : HasRoom image (finalState (call.perform before))) :
    ∃ after,
      call.perform before = .ok () after ∧
        (∀ address found,
          before.walk address = some found →
            after.walk address = some found) ∧
        (∀ address : U64, address.toNat < 2 ^ 30 →
          after.walk address =
            some { phys := address.toNat, writable := true }) ∧
        ∀ whereAddr length, .mapMemory whereAddr length ∈ calls →
          ∀ address : U64,
            (windowStart whereAddr).toNat ≤ address.toNat →
              address.toNat <
                  (windowStart whereAddr).toNat + 4096 * pageCount length →
                after.walk address =
                  some
                    { phys := address.toNat - virtBase.toNat
                      writable := true } := by
  rcases perform_spec (window_of_run run) valid room with
    ⟨after, returns, keeps, -⟩
  refine ⟨after, returns, keeps.keeps, keeps.window.firstGiB, ?_⟩
  intro whereAddr length member address lower upper
  exact
    keeps.keeps _ _
      (mapped_of_run run whereAddr length member address lower upper)

/-- Two overlapping requests made one after the other. -/
theorem acpi_calls_keep_translations_overlap :
    ∃ between after,
      AcpiStep smallImage smallBoot (.mapMemory 0xe0010 0x20) between ∧
        AcpiCall.perform (.mapMemory 0xe0000 0x40) between =
            .ok () after ∧
          after.walk 0xfffe0010 =
            some { phys := 0xe0010, writable := true } := by
  have first : Request 0xe0010 0x20 := ⟨by decide, by decide⟩
  have second : Request 0xe0000 0x40 := ⟨by decide, by decide⟩
  rcases smallBoot_request first (by decide) with
    ⟨between, returns, -, room⟩
  have takes := acpiOsMapMemory_takes first smallBoot
  rw [returns, finalState_ok] at takes
  have laterTakes := perform_takes second between
  have available :
      (smallImage.edata : Int) + 8 * 4096 ≤ smallBoot.allocationAddr := by
    decide
  have onePage : pageCount 0x20 = 1 ∧ pageCount 0x40 = 1 := by decide
  rw [onePage.1] at takes
  rw [onePage.2] at laterTakes
  have laterRoom :
      HasRoom smallImage
        (finalState
          (AcpiCall.perform (.mapMemory 0xe0000 0x40) between)) := by
    simp only [HasRoom]
    omega
  have step :
      AcpiStep smallImage smallBoot (.mapMemory 0xe0010 0x20) between :=
    ⟨first, bind_of_ok returns, room⟩
  have valid : (AcpiCall.mapMemory 0xe0000 0x40).Valid := second
  rcases
      acpi_calls_keep_translations (.step .start step) valid laterRoom with
    ⟨after, laterReturns, -, -, mapped⟩
  exact
    ⟨between, after, step, laterReturns,
      mapped 0xe0010 0x20 (by simp) 0xfffe0010 (by decide) (by decide)⟩

end NopOS.Acpi.MappingRuns
