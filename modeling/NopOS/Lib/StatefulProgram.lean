import Mathlib.Tactic

/-!
# Programs with state and faults

A program is a function from a state to either a result with a new state or a
fault with the state in which it happened.  Keeping the state of a fault
makes it possible to speak about what a failed call has already done, and
about resources which are consumed whether or not a call succeeds.

The section on measures is about such resources: a quantity which no
primitive raises is not raised by any program built from the primitives, so a
lower bound on it at the end of a call is a lower bound all along the call.
-/

namespace NopOS.Lib.StatefulProgram

variable {Fault State Result Next : Type}

/-- The state left behind, whether the program returned or faulted. -/
def finalState : EStateM.Result Fault State Result → State
  | .ok _ state => state
  | .error _ state => state

@[simp]
theorem finalState_ok (result : Result) (state : State) :
    finalState (.ok result state : EStateM.Result Fault State Result) =
      state := rfl

@[simp]
theorem finalState_error (fault : Fault) (state : State) :
    finalState (.error fault state : EStateM.Result Fault State Result) =
      state := rfl

/-! ## Execution of the primitives -/

@[simp]
theorem pure_run (result : Result) (state : State) :
    (pure result : EStateM Fault State Result) state = .ok result state := rfl

@[simp]
theorem get_run (state : State) :
    (get : EStateM Fault State State) state = .ok state state := rfl

@[simp]
theorem throw_run (fault : Fault) (state : State) :
    (throw fault : EStateM Fault State Result) state =
      .error fault state := rfl

/-- A sequence whose first part returns continues in the state it left. -/
theorem bind_of_ok
    {first : EStateM Fault State Result}
    {second : Result → EStateM Fault State Next}
    {state middle : State} {result : Result}
    (returns : first state = .ok result middle) :
    (first >>= second) state = second result middle := by
  change EStateM.bind first second state = _
  simp [EStateM.bind, returns]

/-- A sequence whose first part faults ends there. -/
theorem bind_of_error
    {first : EStateM Fault State Result}
    {second : Result → EStateM Fault State Next}
    {state middle : State} {fault : Fault}
    (faults : first state = .error fault middle) :
    (first >>= second) state = .error fault middle := by
  change EStateM.bind first second state = _
  simp [EStateM.bind, faults]

/-- A sequence which returned went through both parts. -/
theorem ok_of_bind
    {first : EStateM Fault State Result}
    {second : Result → EStateM Fault State Next}
    {state after : State} {value : Next}
    (returns : (first >>= second) state = .ok value after) :
    ∃ result middle,
      first state = .ok result middle ∧
        second result middle = .ok value after := by
  cases outcome : first state with
  | ok result middle =>
      rw [bind_of_ok outcome] at returns
      exact ⟨result, middle, rfl, returns⟩
  | error fault middle =>
      rw [bind_of_error outcome] at returns
      cases returns

/-! ## Measures which no step raises -/

/-- The program never leaves a state with a larger measure. -/
def NeverRaises
    (measure : State → Int) (program : EStateM Fault State Result) : Prop :=
  ∀ state, measure (finalState (program state)) ≤ measure state

namespace NeverRaises

variable {measure : State → Int}

theorem pure (result : Result) :
    NeverRaises measure (pure result : EStateM Fault State Result) :=
  fun _ => le_rfl

theorem get :
    NeverRaises measure (get : EStateM Fault State State) :=
  fun _ => le_rfl

theorem throw (fault : Fault) :
    NeverRaises measure (throw fault : EStateM Fault State Result) :=
  fun _ => le_rfl

/-- What a sequence leaves is at most what its first part left. -/
theorem after_first
    {first : EStateM Fault State Result}
    {second : Result → EStateM Fault State Next}
    (secondLower : ∀ result, NeverRaises measure (second result))
    (state : State) :
    measure (finalState ((first >>= second) state)) ≤
      measure (finalState (first state)) := by
  cases outcome : first state with
  | ok value middle =>
      rw [bind_of_ok outcome]
      exact secondLower value middle
  | error fault middle =>
      rw [bind_of_error outcome]
      rfl

/-- A sequence does not raise the measure where neither part does. -/
theorem bind
    {first : EStateM Fault State Result}
    {second : Result → EStateM Fault State Next}
    (firstLower : NeverRaises measure first)
    (secondLower : ∀ result, NeverRaises measure (second result)) :
    NeverRaises measure (first >>= second) :=
  fun state => (after_first secondLower state).trans (firstLower state)

theorem ite
    {condition : Prop} [Decidable condition]
    {first second : EStateM Fault State Result}
    (firstLower : NeverRaises measure first)
    (secondLower : NeverRaises measure second) :
    NeverRaises measure (if condition then first else second) := by
  split <;> assumption

end NeverRaises

/-- The program lowers the measure by at most a bound. -/
def LowersAtMost
    (measure : State → Int) (bound : Nat)
    (program : EStateM Fault State Result) : Prop :=
  ∀ state, measure state - bound ≤ measure (finalState (program state))

namespace LowersAtMost

variable {measure : State → Int} {bound laterBound : Nat}

theorem pure (result : Result) :
    LowersAtMost measure 0
      (pure result : EStateM Fault State Result) :=
  fun _ => Int.sub_le_self _ le_rfl

theorem get :
    LowersAtMost measure 0 (get : EStateM Fault State State) :=
  fun _ => Int.sub_le_self _ le_rfl

theorem throw (fault : Fault) :
    LowersAtMost measure 0
      (throw fault : EStateM Fault State Result) :=
  fun _ => Int.sub_le_self _ le_rfl

theorem weaken
    {program : EStateM Fault State Result}
    (lowers : LowersAtMost measure bound program)
    (larger : bound ≤ laterBound) :
    LowersAtMost measure laterBound program := by
  intro state
  have lower := lowers state
  omega

/-- The bounds of a sequence add up. -/
theorem bind
    {first : EStateM Fault State Result}
    {second : Result → EStateM Fault State Next}
    (firstLowers : LowersAtMost measure bound first)
    (secondLowers :
      ∀ result, LowersAtMost measure laterBound (second result)) :
    LowersAtMost measure (bound + laterBound) (first >>= second) := by
  intro state
  have lower := firstLowers state
  cases outcome : first state with
  | ok value middle =>
      have laterLower := secondLowers value middle
      rw [bind_of_ok outcome]
      rw [outcome, finalState_ok] at lower
      omega
  | error fault middle =>
      rw [bind_of_error outcome]
      rw [outcome, finalState_error] at lower
      rw [finalState_error]
      omega

theorem ite
    {condition : Prop} [Decidable condition]
    {first second : EStateM Fault State Result}
    (firstLowers : LowersAtMost measure bound first)
    (secondLowers : LowersAtMost measure bound second) :
    LowersAtMost measure bound
      (if condition then first else second) := by
  split <;> assumption

end LowersAtMost

/-! ## Parts of the state which no step changes -/

/-- What the view shows of the state is as it was. -/
def Leaves
    {View : Type} (view : State → View)
    (program : EStateM Fault State Result) : Prop :=
  ∀ state, view (finalState (program state)) = view state

namespace Leaves

variable {View : Type} {view : State → View}

theorem pure (result : Result) :
    Leaves view (pure result : EStateM Fault State Result) :=
  fun _ => rfl

theorem get : Leaves view (get : EStateM Fault State State) :=
  fun _ => rfl

theorem throw (fault : Fault) :
    Leaves view (throw fault : EStateM Fault State Result) :=
  fun _ => rfl

theorem modify
    {change : State → State}
    (same : ∀ state, view (change state) = view state) :
    Leaves view (modify change : EStateM Fault State PUnit) :=
  same

/-- A view that both parts leave is left. -/
theorem bind
    {first : EStateM Fault State Result}
    {second : Result → EStateM Fault State Next}
    (firstLeaves : Leaves view first)
    (secondLeaves : ∀ result, Leaves view (second result)) :
    Leaves view (first >>= second) := by
  intro state
  have firstSame := firstLeaves state
  cases outcome : first state with
  | ok result middle =>
      rw [outcome, finalState_ok] at firstSame
      rw [bind_of_ok outcome, secondLeaves result middle, firstSame]
  | error fault middle =>
      rw [outcome, finalState_error] at firstSame
      rw [bind_of_error outcome, finalState_error, firstSame]

theorem ite
    {condition : Prop} [Decidable condition]
    {first second : EStateM Fault State Result}
    (firstLeaves : Leaves view first)
    (secondLeaves : Leaves view second) :
    Leaves view (if condition then first else second) := by
  split <;> assumption

end Leaves

end NopOS.Lib.StatefulProgram
