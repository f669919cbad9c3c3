import Mathlib.Tactic

/-!
# Runs of labelled transition systems

A run records the labels it took, so that an invariant may speak about the
history as well as about the state reached.  The last transition of a run is
the outermost one: properties are proved for the state before it and carried
over by the property of one transition.
-/

namespace NopOS.Lib.LabelledRun

variable {State Label : Type*}

/-- A finite run and the labels of its transitions, in order. -/
inductive Run (step : State → Label → State → Prop) (start : State) :
    List Label → State → Prop where
  | start : Run step start [] start
  | step
      {labels : List Label} {label : Label} {before after : State}
      (earlier : Run step start labels before)
      (last : step before label after) :
      Run step start (labels ++ [label]) after

namespace Run

variable {step : State → Label → State → Prop} {start : State}

/-- A run continues where another one ends. -/
theorem trans
    {labels later : List Label} {middle state : State}
    (first : Run step start labels middle)
    (second : Run step middle later state) :
    Run step start (labels ++ later) state := by
  induction second with
  | start =>
      rw [List.append_nil]
      exact first
  | step _ last induction =>
      rw [← List.append_assoc]
      exact .step induction last

/-- A transition comes before a run. -/
theorem cons
    {label : Label} {labels : List Label} {middle state : State}
    (first : step start label middle)
    (later : Run step middle labels state) :
    Run step start (label :: labels) state :=
  trans (.step .start first) later

/-- An invariant which may refer to the labels taken so far. -/
theorem invariant_with_history
    (property : List Label → State → Prop)
    (initially : property [] start)
    (preserved :
      ∀ labels label before after,
        Run step start labels before →
          property labels before →
            step before label after →
              property (labels ++ [label]) after)
    {labels : List Label} {state : State}
    (run : Run step start labels state) :
    property labels state := by
  induction run with
  | start => exact initially
  | step earlier last induction =>
      exact preserved _ _ _ _ earlier induction last

/-- An invariant of states. -/
theorem invariant
    (property : State → Prop)
    (initially : property start)
    (preserved :
      ∀ label before after,
        property before → step before label after → property after)
    {labels : List Label} {state : State}
    (run : Run step start labels state) :
    property state :=
  run.invariant_with_history (fun _ => property) initially
    fun _ label before after _ holds last =>
      preserved label before after holds last

end Run

end NopOS.Lib.LabelledRun
