import Mathlib.Tactic

/-!
# Interrupt handlers

ACPICA installs and removes handlers in the table which the dispatcher reads.
A handler is installed with a context, which the table has no room for.
-/

namespace NopOS.Acpi.InterruptHandlers

/-- A pointer, such as `Context`. -/
abbrev Pointer := BitVec 64

/-- The status codes of the functions ACPICA calls. -/
inductive AcpiStatus where
  | ok
  | badParameter
  | alreadyExists
  | notExist
  | notImplemented
deriving DecidableEq

variable {Routine : Type}

/-- The array `interrupt_fn`.  A function pointer may be null. -/
abbrev InterruptFn (Routine : Type) := Fin 256 → Option Routine

/-- `is_registered(vec)`. -/
def isRegistered (table : InterruptFn Routine) (vec : Fin 256) : Bool :=
  (table vec).isSome

/-- `register_fn(vec, f)`. -/
def registerFn
    (vec : Fin 256) (f : Option Routine) (table : InterruptFn Routine) :
    InterruptFn Routine :=
  Function.update table vec f

/-- `interrupt`, as the list of its calls with their arguments. -/
def interrupt (vec : Fin 256) (table : InterruptFn Routine) :
    List (Routine × Pointer) :=
  match table vec with
  | some f => [(f, 0)]
  | none => []

/-- `AcpiOsInstallInterruptHandler`. -/
def acpiOsInstallInterruptHandler
    (interruptNumber : Fin 256) (serviceRoutine : Option Routine)
    (_context : Pointer) (table : InterruptFn Routine) :
    AcpiStatus × InterruptFn Routine :=
  match serviceRoutine with
  | none => (.badParameter, table)
  | some routine =>
      if isRegistered table interruptNumber then (.alreadyExists, table)
      else (.ok, registerFn interruptNumber (some routine) table)

/-- The routine which is removed is not compared with the one installed. -/
def acpiOsRemoveInterruptHandler
    (interruptNumber : Fin 256) (serviceRoutine : Option Routine)
    (table : InterruptFn Routine) : AcpiStatus × InterruptFn Routine :=
  match serviceRoutine with
  | none => (.badParameter, table)
  | some _ =>
      if isRegistered table interruptNumber then
        (.ok, registerFn interruptNumber none table)
      else (.notExist, table)

/-! ## Sequences of calls and interrupts -/

/-- What happens to the table: a call of ACPICA, or an interrupt. -/
inductive Event (Routine : Type) where
  | install
      (vec : Fin 256) (routine : Option Routine) (context : Pointer)
  | remove (vec : Fin 256) (routine : Option Routine)
  | interrupt (vec : Fin 256)

/-- What the caller sees of an event. -/
inductive Answer (Routine : Type) where
  | status (status : AcpiStatus)
  | invoked (calls : List (Routine × Pointer))

/-- What an event answers, and the table after it. -/
def perform (table : InterruptFn Routine) :
    Event Routine → Answer Routine × InterruptFn Routine
  | .install vec routine context =>
      let answer := acpiOsInstallInterruptHandler vec routine context table
      (.status answer.1, answer.2)
  | .remove vec routine =>
      let answer := acpiOsRemoveInterruptHandler vec routine table
      (.status answer.1, answer.2)
  | .interrupt vec => (.invoked (InterruptHandlers.interrupt vec table), table)

/-- What was supplied to the installs which are in force. -/
abbrev Registrations (Routine : Type) :=
  Fin 256 → Option (Routine × Pointer)

/-- A successful install is in force until a successful removal. -/
def record (registrations : Registrations Routine) :
    Event Routine → Answer Routine → Registrations Routine
  | .install vec (some routine) context, .status .ok =>
      Function.update registrations vec (some (routine, context))
  | .remove vec _, .status .ok => Function.update registrations vec none
  | _, _ => registrations

/-- The table and what was supplied to the installs in force. -/
structure Observed (Routine : Type) where
  table : InterruptFn Routine
  registrations : Registrations Routine

/-- An event, on the table and on the record of what was registered. -/
def observe (observed : Observed Routine) (event : Event Routine) :
    Observed Routine :=
  let answer := perform observed.table event
  { table := answer.2
    registrations := record observed.registrations event answer.1 }

/-- After a sequence of events, from the table which is all null. -/
def after (events : List (Event Routine)) : Observed Routine :=
  events.foldl observe ⟨fun _ => none, fun _ => none⟩

/-! ## The table holds the routines in force -/

/-- The table agrees with the registrations, their contexts apart. -/
def HoldsRoutines (observed : Observed Routine) : Prop :=
  ∀ vec, observed.table vec = (observed.registrations vec).map Prod.fst

/-- An entry and its registration change together. -/
theorem HoldsRoutines.update
    {observed : Observed Routine} (holds : HoldsRoutines observed)
    (vec : Fin 256) (entry : Option (Routine × Pointer)) :
    HoldsRoutines
      ⟨registerFn vec (entry.map Prod.fst) observed.table,
        Function.update observed.registrations vec entry⟩ := by
  intro other
  by_cases same : other = vec
  · subst other
    simp [registerFn]
  · simp only [registerFn, Function.update_of_ne same]
    exact holds other

/--
What is asked of an event: a delivered vector invokes the routine in force
with its context, and an install on an occupied vector changes nothing.
-/
def FollowsRegistration (observed : Observed Routine) :
    Event Routine → Prop
  | .install vec (some routine) context =>
      (observed.registrations vec).isSome →
        perform observed.table (.install vec (some routine) context) =
          (.status .alreadyExists, observed.table)
  | .install vec none context =>
      (perform observed.table (.install vec none context)).2 = observed.table
  | .remove _ _ => True
  | .interrupt vec =>
      perform observed.table (.interrupt vec) =
        (.invoked (observed.registrations vec).toList, observed.table)

/-- Every event of a sequence does what is asked of it. -/
def Follows (events : List (Event Routine)) : Prop :=
  ∀ earlier event later,
    events = earlier ++ event :: later →
      FollowsRegistration (after earlier) event

end NopOS.Acpi.InterruptHandlers
