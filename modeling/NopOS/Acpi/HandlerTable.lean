import NopOS.Acpi.InterruptHandlers

/-!
# The handler table under any number

ACPICA passes the number of an interrupt in 32 bits.  It becomes an `int` and
then an index of `interrupt_fn`, which has 256 entries.  Here the index is
not bounded beforehand, and an access outside of the array is a fault.
-/

namespace NopOS.Acpi.HandlerTable

open NopOS.Acpi.InterruptHandlers (AcpiStatus InterruptFn Pointer)

variable {Routine : Type}

/-- An access outside `interrupt_fn`. -/
inductive Fault where
  | outOfBounds (index : Int)
deriving DecidableEq

/-- The entry of the array for an index. -/
def entry (vec : Int) : Except Fault (Fin 256) :=
  if inside : vec.toNat < 256 ∧ 0 ≤ vec then .ok ⟨vec.toNat, inside.1⟩
  else .error (.outOfBounds vec)

/-- `is_registered(vec)`. -/
def isRegistered
    (table : InterruptFn Routine) (vec : Int) : Except Fault Bool := do
  let index ← entry vec
  return (table index).isSome

/-- `register_fn(vec, f)`. -/
def registerFn
    (vec : Int) (f : Option Routine) (table : InterruptFn Routine) :
    Except Fault (InterruptFn Routine) := do
  let index ← entry vec
  return Function.update table index f

/-- `AcpiOsInstallInterruptHandler`. -/
def acpiOsInstallInterruptHandler
    (interruptNumber : BitVec 32) (serviceRoutine : Option Routine)
    (_context : Pointer) (table : InterruptFn Routine) :
    Except Fault (AcpiStatus × InterruptFn Routine) := do
  if serviceRoutine.isNone then
    return (.badParameter, table)
  if ← isRegistered table interruptNumber.toInt then
    return (.alreadyExists, table)
  let registered ←
    registerFn interruptNumber.toInt serviceRoutine table
  return (.ok, registered)

/-- `AcpiOsRemoveInterruptHandler`. -/
def acpiOsRemoveInterruptHandler
    (interruptNumber : BitVec 32) (serviceRoutine : Option Routine)
    (table : InterruptFn Routine) :
    Except Fault (AcpiStatus × InterruptFn Routine) := do
  if serviceRoutine.isNone then
    return (.badParameter, table)
  if !(← isRegistered table interruptNumber.toInt) then
    return (.notExist, table)
  let cleared ← registerFn interruptNumber.toInt none table
  return (.ok, cleared)

/-! ## Calls -/

/-- The two calls of ACPICA, with their arguments. -/
inductive Call (Routine : Type) where
  | install
      (number : BitVec 32) (routine : Option Routine) (context : Pointer)
  | remove (number : BitVec 32) (routine : Option Routine)

/-- The interrupt number of a call. -/
def Call.number : Call Routine → BitVec 32
  | .install number _ _ => number
  | .remove number _ => number

/-- What a call answers, and the table after it. -/
def perform (table : InterruptFn Routine) :
    Call Routine → Except Fault (AcpiStatus × InterruptFn Routine)
  | .install number routine context =>
      acpiOsInstallInterruptHandler number routine context table
  | .remove number routine =>
      acpiOsRemoveInterruptHandler number routine table

/-- The entry which is named by a number, if there is one. -/
theorem entry_of_lt {number : BitVec 32} (inside : number.toNat < 256) :
    entry number.toInt = .ok ⟨number.toNat, inside⟩ := by
  have value : number.toInt = number.toNat := by
    rw [BitVec.toInt_eq_toNat_of_lt (by omega)]
  simp [entry, value, inside]

/-- The table has 256 entries. -/
theorem entry_of_le {number : BitVec 32} (outside : 256 ≤ number.toNat) :
    entry number.toInt = .error (.outOfBounds number.toInt) := by
  have bound := number.isLt
  have notInside : ¬ (number.toInt.toNat < 256 ∧ 0 ≤ number.toInt) := by
    rw [BitVec.toInt_eq_toNat_cond]
    split <;> omega
  rw [entry, dif_neg notInside]

/-- Without a routine the number is not looked at. -/
theorem install_none
    (number : BitVec 32) (context : Pointer) (table : InterruptFn Routine) :
    perform table (.install number none context) =
      .ok (.badParameter, table) := rfl

theorem remove_none (number : BitVec 32) (table : InterruptFn Routine) :
    perform table (.remove number none) = .ok (.badParameter, table) := rfl

/-- A number beyond the table is not refused but used. -/
theorem install_outside
    {number : BitVec 32} (outside : 256 ≤ number.toNat) (routine : Routine)
    (context : Pointer) (table : InterruptFn Routine) :
    perform table (.install number (some routine) context) =
      .error (.outOfBounds number.toInt) := by
  simp [perform, acpiOsInstallInterruptHandler, isRegistered,
    entry_of_le outside, bind, Except.bind]

/-- Nor is it on removal. -/
theorem remove_outside
    {number : BitVec 32} (outside : 256 ≤ number.toNat) (routine : Routine)
    (table : InterruptFn Routine) :
    perform table (.remove number (some routine)) =
      .error (.outOfBounds number.toInt) := by
  simp [perform, acpiOsRemoveInterruptHandler, isRegistered,
    entry_of_le outside, bind, Except.bind]

/-- Inside of the table the calls are those on an index of the table. -/
theorem install_inside
    {number : BitVec 32} (inside : number.toNat < 256)
    (routine : Option Routine) (context : Pointer)
    (table : InterruptFn Routine) :
    perform table (.install number routine context) =
      .ok (InterruptHandlers.acpiOsInstallInterruptHandler
        ⟨number.toNat, inside⟩ routine context table) := by
  cases routine with
  | none => rfl
  | some routine =>
      cases occupied : (table ⟨number.toNat, inside⟩).isSome with
      | true =>
          simp [perform, acpiOsInstallInterruptHandler, isRegistered,
            InterruptHandlers.acpiOsInstallInterruptHandler,
            InterruptHandlers.isRegistered, entry_of_lt inside, occupied,
            bind, Except.bind, pure, Except.pure]
      | false =>
          simp [perform, acpiOsInstallInterruptHandler, isRegistered,
            registerFn, InterruptHandlers.acpiOsInstallInterruptHandler,
            InterruptHandlers.isRegistered, InterruptHandlers.registerFn,
            entry_of_lt inside, occupied, bind, Except.bind, pure,
            Except.pure]

theorem remove_inside
    {number : BitVec 32} (inside : number.toNat < 256)
    (routine : Option Routine) (table : InterruptFn Routine) :
    perform table (.remove number routine) =
      .ok (InterruptHandlers.acpiOsRemoveInterruptHandler
        ⟨number.toNat, inside⟩ routine table) := by
  cases routine with
  | none => rfl
  | some routine =>
      cases occupied : (table ⟨number.toNat, inside⟩).isSome with
      | true =>
          simp [perform, acpiOsRemoveInterruptHandler, isRegistered,
            registerFn, InterruptHandlers.acpiOsRemoveInterruptHandler,
            InterruptHandlers.isRegistered, InterruptHandlers.registerFn,
            entry_of_lt inside, occupied, bind, Except.bind, pure,
            Except.pure]
      | false =>
          simp [perform, acpiOsRemoveInterruptHandler, isRegistered,
            InterruptHandlers.acpiOsRemoveInterruptHandler,
            InterruptHandlers.isRegistered, entry_of_lt inside, occupied,
            bind, Except.bind, pure, Except.pure]

/-- An entry that is taken stays; a free one is filled. -/
theorem install_inside_cases
    {number : BitVec 32} (inside : number.toNat < 256) (routine : Routine)
    (context : Pointer) (table : InterruptFn Routine) :
    perform table (.install number (some routine) context) =
        .ok (.alreadyExists, table) ∨
      perform table (.install number (some routine) context) =
        .ok (.ok, InterruptHandlers.registerFn ⟨number.toNat, inside⟩
          (some routine) table) := by
  rw [install_inside inside,
    InterruptHandlers.acpiOsInstallInterruptHandler]
  split_ifs
  · exact Or.inl rfl
  · exact Or.inr rfl

/-- A free entry is reported; one that is taken is emptied, whoever's it is. -/
theorem remove_inside_cases
    {number : BitVec 32} (inside : number.toNat < 256) (routine : Routine)
    (table : InterruptFn Routine) :
    perform table (.remove number (some routine)) =
        .ok (.notExist, table) ∧ table ⟨number.toNat, inside⟩ = none ∨
      perform table (.remove number (some routine)) =
        .ok (.ok, InterruptHandlers.registerFn ⟨number.toNat, inside⟩
          none table) ∧ table ⟨number.toNat, inside⟩ ≠ none := by
  rw [remove_inside inside, InterruptHandlers.acpiOsRemoveInterruptHandler,
    InterruptHandlers.isRegistered]
  cases table ⟨number.toNat, inside⟩ with
  | none => exact Or.inl ⟨rfl, rfl⟩
  | some installed => exact Or.inr ⟨rfl, Option.some_ne_none installed⟩

/-! ## Calls which leave the rest of the table intact -/

/-- What a call may answer and leave behind. -/
structure Respects
    (table : InterruptFn Routine) (call : Call Routine) (status : AcpiStatus)
    (after : InterruptFn Routine) : Prop where
  vector : status = .ok → call.number.toNat < 256
  unchanged : status ≠ .ok → after = table
  others :
    ∀ index : Fin 256, index.val ≠ call.number.toNat →
      after index = table index
  owner :
    ∀ (number : BitVec 32) (routine : Option Routine) (installed : Routine)
      (index : Fin 256),
      call = .remove number routine → index.val = number.toNat →
        table index = some installed → routine ≠ some installed →
          status ≠ .ok ∧ after = table

/-- The call returns and has not touched what it should not touch. -/
def Intact (table : InterruptFn Routine) (call : Call Routine) : Prop :=
  ∃ status after,
    perform table call = .ok (status, after) ∧
      Respects table call status after

/-- No routine at all, or an interrupt of the table which, for a removal, has
no other routine. -/
def Proper (table : InterruptFn Routine) : Call Routine → Prop
  | .install number routine _ => routine = none ∨ number.toNat < 256
  | .remove number routine =>
      routine = none ∨
        ∃ inside : number.toNat < 256,
          table ⟨number.toNat, inside⟩ = none ∨
            table ⟨number.toNat, inside⟩ = routine

/-- A call which fails and leaves the table is intact. -/
theorem Respects.of_failure
    (table : InterruptFn Routine) (call : Call Routine) {status : AcpiStatus}
    (failure : status ≠ .ok) : Respects table call status table where
  vector success := absurd success failure
  unchanged _ := rfl
  others _ _ := rfl
  owner _ _ _ _ _ _ _ _ := ⟨failure, rfl⟩

/-- An entry which is replaced is the one which is named. -/
theorem registerFn_others
    (table : InterruptFn Routine) {number : BitVec 32}
    (inside : number.toNat < 256) (routine : Option Routine)
    {index : Fin 256} (other : index.val ≠ number.toNat) :
    InterruptHandlers.registerFn ⟨number.toNat, inside⟩ routine table index =
      table index :=
  Function.update_of_ne (fun same => other (congrArg Fin.val same)) _ _

/-- Installation is safe without a routine, or within the table. -/
theorem intact_install_iff
    (table : InterruptFn Routine) (number : BitVec 32)
    (routine : Option Routine) (context : Pointer) :
    Intact table (.install number routine context) ↔
      routine = none ∨ number.toNat < 256 := by
  cases routine with
  | none =>
      have intact : Intact table (.install number none context) :=
        ⟨_, _, install_none number context table,
          Respects.of_failure table _ (by decide)⟩
      exact iff_of_true intact (Or.inl rfl)
  | some routine =>
      constructor
      · rintro ⟨status, after, answer, -⟩
        by_contra improper
        have outside : 256 ≤ number.toNat :=
          not_lt.mp (not_or.mp improper).2
        rw [install_outside outside] at answer
        cases answer
      · rintro (none | inside)
        · cases none
        · rcases install_inside_cases inside routine context table with
            answer | answer
          · exact ⟨_, _, answer, Respects.of_failure table _ (by decide)⟩
          · refine ⟨_, _, answer, ?_⟩
            exact
              { vector := fun _ => inside
                unchanged := fun failure => absurd rfl failure
                others := fun _ => registerFn_others table inside _
                owner := nofun }

/-- Removal is safe without a routine, or where it meets its own entry or none. -/
theorem intact_remove_iff
    (table : InterruptFn Routine) (number : BitVec 32)
    (routine : Option Routine) :
    Intact table (.remove number routine) ↔
      routine = none ∨
        ∃ inside : number.toNat < 256,
          table ⟨number.toNat, inside⟩ = none ∨
            table ⟨number.toNat, inside⟩ = routine := by
  cases routine with
  | none =>
      have intact : Intact table (.remove number none) :=
        ⟨_, _, remove_none number table,
          Respects.of_failure table _ (by decide)⟩
      exact iff_of_true intact (Or.inl rfl)
  | some routine =>
      by_cases inside : number.toNat < 256
      · rcases remove_inside_cases inside routine table with
          ⟨answer, free⟩ | ⟨answer, occupied⟩
        · have intact : Intact table (.remove number (some routine)) :=
            ⟨_, _, answer, Respects.of_failure table _ (by decide)⟩
          exact iff_of_true intact (Or.inr ⟨inside, Or.inl free⟩)
        · rcases Option.ne_none_iff_exists'.mp occupied with
            ⟨installed, holds⟩
          constructor
          · rintro ⟨status, after, returned, respects⟩
            rw [answer] at returned
            cases returned
            refine Or.inr ⟨inside, Or.inr ?_⟩
            by_contra other
            -- The removal of another routine succeeds.
            have failed :=
              (respects.owner number (some routine) installed
                ⟨number.toNat, inside⟩ rfl rfl holds
                (fun same => other (holds.trans same.symm))).1
            exact failed rfl
          · rintro (none | ⟨_, free | own⟩)
            · cases none
            · exact absurd free occupied
            · refine ⟨_, _, answer, ?_⟩
              exact
                { vector := fun _ => inside
                  unchanged := fun failure => absurd rfl failure
                  others := fun _ => registerFn_others table inside _
                  owner := by
                    rintro _ _ other index ⟨⟩ named found different
                    have same : index = ⟨number.toNat, inside⟩ :=
                      Fin.ext named
                    rw [same] at found
                    exact absurd (own.symm.trans found) different }
      · constructor
        · rintro ⟨status, after, answer, -⟩
          rw [remove_outside (not_lt.mp inside)] at answer
          cases answer
        · rintro (none | ⟨within, -⟩)
          · cases none
          · exact absurd within inside

/-- The proper calls are the safe ones. -/
theorem intact_iff (table : InterruptFn Routine) (call : Call Routine) :
    Intact table call ↔ Proper table call := by
  cases call with
  | install number routine context =>
      exact intact_install_iff table number routine context
  | remove number routine => exact intact_remove_iff table number routine

/-! ## Sequences of calls -/

/-- A property of every call of a sequence in the table which it finds. -/
def EachCall
    (property : InterruptFn Routine → Call Routine → Prop)
    (table : InterruptFn Routine) : List (Call Routine) → Prop
  | [] => True
  | call :: later =>
      property table call ∧
        ∀ status after, perform table call = .ok (status, after) →
          EachCall property after later

/-- From any table, the calls of a sequence leave the table intact if and only
if they are proper where they are made. -/
theorem handler_table_intact_iff
    (table : InterruptFn Routine) (calls : List (Call Routine)) :
    EachCall Intact table calls ↔ EachCall Proper table calls := by
  induction calls generalizing table with
  | nil => exact Iff.rfl
  | cons call later induction =>
      exact and_congr (intact_iff table call)
        (forall_congr' fun _ => forall_congr' fun after =>
          imp_congr_right fun _ => induction after)

/-- Routine 2 removes routine 1 from vector 9, and 256 is no vector. -/
theorem other_handler_removed :
    perform (Function.update (fun _ => none) 9 (some 1))
        (.remove 9 (some 2)) =
      .ok (.ok, Function.update (Function.update (fun _ => none) 9 (some 1))
        9 none) ∧
      ¬ Intact (Function.update (fun _ => none) 9 (some 1))
          (.remove 9 (some 2)) ∧
        ¬ Intact (fun _ => none) (.install 256 (some 1) 0) := by
  refine ⟨rfl, ?_, ?_⟩
  · rw [intact_iff]
    rintro (given | ⟨inside, free | own⟩)
    · cases given
    · cases free
    · have wrong : some 1 = some 2 := own
      exact absurd (Option.some.inj wrong) (by decide)
  · rw [intact_iff]
    rintro (given | inside)
    · cases given
    · exact absurd inside (by decide)

end NopOS.Acpi.HandlerTable
