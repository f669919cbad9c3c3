import NopOS.Lib.Interleaving

/-!
# Spin locks

The lock is a byte which is exchanged with 1.  A processor which finds it
taken reads it until it is free and tries again.  Whatever the processors do
while they have the lock, and however they interleave, they do it as if one
after the other.
-/

namespace NopOS.Smp.Spinlock

open NopOS.Lib.LabelledRun
open NopOS.Lib.Interleaving

variable {Index Own Data : Type*}

/-- One access to the data under the lock. -/
abbrev Access (Own Data : Type*) := Own → Data → Own × Data

/-- A section of a processor: the accesses between `spin_lock` and
`spin_unlock`, and what the processor does with its own memory afterwards.
With `spin_trylock` there is something to do if the lock was taken. -/
structure Job (Own Data : Type*) where
  locked : List (Access Own Data)
  unlocked : Own → Own
  refused : Option (Own → Own)

/-- Where a processor stands: before the atomic exchange, in the polling loop,
inside the section with the accesses that are left, or after the release. -/
inductive Point (Own Data : Type*) where
  | testAndSet
  | polling
  | locked (left : List (Access Own Data))
  | unlocked

/-- A processor: its point, its own data and the sections it has yet to run. -/
structure Cpu (Own Data : Type*) where
  point : Point Own Data
  own : Own
  jobs : List (Job Own Data)

/-- `sl->_lock`, and the data which it guards. -/
structure Memory (Data : Type*) where
  lock : Bool
  data : Data

/-- One instruction of a processor. -/
def step : Program (Cpu Own Data) (Memory Data)
  | ⟨_, _, []⟩, _ => none
  | ⟨.testAndSet, own, job :: jobs⟩, memory =>
      -- `__sync_lock_test_and_set(&sl->_lock, 1)`
      if memory.lock then
        match job.refused with
        | none => some (⟨.polling, own, job :: jobs⟩, memory)
        | some refused => some (⟨.testAndSet, refused own, jobs⟩, memory)
      else
        some
          (⟨.locked job.locked, own, job :: jobs⟩, { memory with lock := true })
  | ⟨.polling, own, job :: jobs⟩, memory =>
      if memory.lock then some (⟨.polling, own, job :: jobs⟩, memory)
      else some (⟨.testAndSet, own, job :: jobs⟩, memory)
  | ⟨.locked (access :: left), own, job :: jobs⟩, memory =>
      let (own, data) := access own memory.data
      some (⟨.locked left, own, job :: jobs⟩, { memory with data := data })
  | ⟨.locked [], own, job :: jobs⟩, memory =>
      -- `__sync_lock_release(&sl->_lock, 0)`
      some (⟨.unlocked, own, job :: jobs⟩, { memory with lock := false })
  | ⟨.unlocked, own, job :: jobs⟩, memory =>
      some (⟨.testAndSet, job.unlocked own, jobs⟩, memory)

/-- The processors beside the lock and the data it guards. -/
abbrev Machine (Index Own Data : Type*) :=
  State Index (Cpu Own Data) (Memory Data)

/-- The processor holds the lock. -/
def Cpu.Inside (cpu : Cpu Own Data) : Prop :=
  ∃ left, cpu.point = .locked left

/-! ## One section after the other -/

/-- The accesses of a section one after another, undisturbed. -/
def runAll : List (Access Own Data) → Own → Data → Own × Data
  | [], own, data => (own, data)
  | access :: left, own, data =>
      let (own, data) := access own data
      runAll left own data

/-- The processors and the data, with no lock. -/
structure Serial (Index Own Data : Type*) where
  data : Data
  own : Index → Own
  jobs : Index → List (Job Own Data)

/-- How a processor goes through its next section. -/
inductive Passage where
  | whole
  | refused
deriving DecidableEq

/-- A processor goes through its whole section, or it is refused. -/
inductive SerialStep [DecidableEq Index] :
    Serial Index Own Data → Index × Passage → Serial Index Own Data → Prop where
  | whole
      {before : Serial Index Own Data} {cpu : Index} {job : Job Own Data}
      {jobs : List (Job Own Data)} {own : Own} {data : Data}
      (next : before.jobs cpu = job :: jobs)
      (runs : runAll job.locked (before.own cpu) before.data = (own, data)) :
      SerialStep before (cpu, .whole)
        ⟨data, Function.update before.own cpu (job.unlocked own),
          Function.update before.jobs cpu jobs⟩
  | refused
      {before : Serial Index Own Data} {cpu : Index} {job : Job Own Data}
      {jobs : List (Job Own Data)} {refused : Own → Own}
      (next : before.jobs cpu = job :: jobs)
      (mayFail : job.refused = some refused) :
      SerialStep before (cpu, .refused)
        ⟨before.data, Function.update before.own cpu (refused (before.own cpu)),
          Function.update before.jobs cpu jobs⟩

/-- Runs in which each section happens at once. -/
abbrev SerialRun [DecidableEq Index] (start : Serial Index Own Data) :=
  Run SerialStep start

/-- All processors are about to start. -/
def started (start : Serial Index Own Data) : Machine Index Own Data where
  shared := ⟨false, start.data⟩
  locals cpu := ⟨.testAndSet, start.own cpu, start.jobs cpu⟩

variable [DecidableEq Index]

/-! ## One step -/

/-- What one step of a processor can be. -/
inductive Moves
    (before : Machine Index Own Data) (cpu : Index) :
    Machine Index Own Data → Prop where
  | waits
      {point next : Point Own Data} {own : Own} {jobs : List (Job Own Data)}
      (here : before.locals cpu = ⟨point, own, jobs⟩)
      (outside : point = .testAndSet ∨ point = .polling)
      (still : next = .testAndSet ∨ next = .polling) :
      Moves before cpu
        ⟨before.shared, Function.update before.locals cpu ⟨next, own, jobs⟩⟩
  | refused
      {own : Own} {job : Job Own Data} {jobs : List (Job Own Data)}
      {refused : Own → Own}
      (here : before.locals cpu = ⟨.testAndSet, own, job :: jobs⟩)
      (mayFail : job.refused = some refused) :
      Moves before cpu
        ⟨before.shared,
          Function.update before.locals cpu ⟨.testAndSet, refused own, jobs⟩⟩
  | acquires
      {own : Own} {job : Job Own Data} {jobs : List (Job Own Data)}
      (here : before.locals cpu = ⟨.testAndSet, own, job :: jobs⟩)
      (free : before.shared.lock = false) :
      Moves before cpu
        ⟨⟨true, before.shared.data⟩,
          Function.update before.locals cpu
            ⟨.locked job.locked, own, job :: jobs⟩⟩
  | accesses
      {own : Own} {job : Job Own Data} {jobs : List (Job Own Data)}
      {access : Access Own Data} {left : List (Access Own Data)}
      (here : before.locals cpu = ⟨.locked (access :: left), own, job :: jobs⟩) :
      Moves before cpu
        ⟨⟨before.shared.lock, (access own before.shared.data).2⟩,
          Function.update before.locals cpu
            ⟨.locked left, (access own before.shared.data).1, job :: jobs⟩⟩
  | releases
      {own : Own} {job : Job Own Data} {jobs : List (Job Own Data)}
      (here : before.locals cpu = ⟨.locked [], own, job :: jobs⟩) :
      Moves before cpu
        ⟨⟨false, before.shared.data⟩,
          Function.update before.locals cpu ⟨.unlocked, own, job :: jobs⟩⟩
  | finishes
      {own : Own} {job : Job Own Data} {jobs : List (Job Own Data)}
      (here : before.locals cpu = ⟨.unlocked, own, job :: jobs⟩) :
      Moves before cpu
        ⟨before.shared,
          Function.update before.locals cpu
            ⟨.testAndSet, job.unlocked own, jobs⟩⟩

variable
    {start serial : Serial Index Own Data} {cpu : Index}
    {before after state : Machine Index Own Data}

/-- A step of the lock's code is one of the moves. -/
theorem moves_of_step
    (stepped : Step step before cpu after) :
    Moves before cpu after := by
  rcases stepped with ⟨next, shared, runs, rfl⟩
  rcases here : before.locals cpu with ⟨point, own, - | ⟨job, jobs⟩⟩
  · rw [here] at runs
    cases point with
    | locked left =>
        cases left with
        | nil => cases runs
        | cons access left => cases runs
    | _ => cases runs
  rw [here] at runs
  cases point with
  | testAndSet =>
      rw [step] at runs
      by_cases taken : before.shared.lock = true
      · rw [if_pos taken] at runs
        cases mayFail : job.refused with
        | none =>
            rw [mayFail] at runs
            cases runs
            exact .waits here (.inl rfl) (.inr rfl)
        | some refused =>
            rw [mayFail] at runs
            cases runs
            exact .refused here mayFail
      · rw [if_neg taken] at runs
        cases runs
        exact .acquires here (Bool.eq_false_of_not_eq_true taken)
  | polling =>
      rw [step] at runs
      split at runs
      · cases runs
        exact .waits here (.inr rfl) (.inr rfl)
      · cases runs
        exact .waits here (.inr rfl) (.inl rfl)
  | locked left =>
      cases left with
      | nil =>
          cases runs
          exact .releases here
      | cons access left =>
          cases runs
          exact .accesses here
  | unlocked =>
      cases runs
      exact .finishes here

/-! ## Mutual exclusion -/

/-- The lock is taken if and only if a processor is in its section, and there
is no other one. -/
structure Exclusive (state : Machine Index Own Data) : Prop where
  locked : ∀ cpu, (state.locals cpu).Inside → state.shared.lock = true
  someone : state.shared.lock = true → ∃ cpu, (state.locals cpu).Inside
  one :
    ∀ cpu other,
      (state.locals cpu).Inside → (state.locals other).Inside → cpu = other

omit [DecidableEq Index] in
/-- Nobody holds the lock at first. -/
theorem exclusive_started : Exclusive (started start) where
  locked := by
    rintro cpu ⟨left, inside⟩
    cases inside
  someone := by
    intro taken
    cases taken
  one := by
    rintro cpu other ⟨left, inside⟩
    cases inside

/-- A processor outside its section stays outside. -/
theorem Exclusive.outside
    (exclusive : Exclusive before)
    {next : Cpu Own Data}
    (was : ¬ (before.locals cpu).Inside)
    (outside : ¬ next.Inside) :
    Exclusive
      (⟨before.shared, Function.update before.locals cpu next⟩ :
        Machine Index Own Data) := by
  have same (other : Index)
      (inside : (Function.update before.locals cpu next other).Inside) :
      (before.locals other).Inside := by
    by_cases here : other = cpu
    · rw [here, Function.update_self] at inside
      exact absurd inside outside
    · rwa [Function.update_of_ne here] at inside
  constructor
  · intro other inside
    exact exclusive.locked other (same other inside)
  · intro taken
    rcases exclusive.someone taken with ⟨other, inside⟩
    have elsewhere : other ≠ cpu := by
      rintro rfl
      exact was inside
    refine ⟨other, ?_⟩
    dsimp only
    rwa [Function.update_of_ne elsewhere]
  · intro first second firstInside secondInside
    exact
      exclusive.one first second (same first firstInside)
        (same second secondInside)

omit [DecidableEq Index] in
/-- If the others are outside, the one is inside exactly if the lock is
taken. -/
theorem exclusive_of_others
    {state : Machine Index Own Data}
    (taken : state.shared.lock = true ↔ (state.locals cpu).Inside)
    (others : ∀ other, other ≠ cpu → ¬ (state.locals other).Inside) :
    Exclusive state := by
  have only (other : Index) (inside : (state.locals other).Inside) :
      other = cpu := by
    by_contra elsewhere
    exact others other elsewhere inside
  constructor
  · intro other inside
    rw [taken, ← only other inside]
    exact inside
  · intro locked
    exact ⟨cpu, taken.mp locked⟩
  · intro first second firstInside secondInside
    rw [only first firstInside, only second secondInside]

omit [DecidableEq Index] in
/-- While one processor is inside, the others are not. -/
theorem Exclusive.others
    (exclusive : Exclusive before)
    (inside : (before.locals cpu).Inside)
    (other : Index) (elsewhere : other ≠ cpu) :
    ¬ (before.locals other).Inside :=
  fun otherInside => elsewhere (exclusive.one other cpu otherInside inside)

/-- A move leaves at most one processor in a section. -/
theorem exclusive_step
    (exclusive : Exclusive before)
    (moves : Moves before cpu after) :
    Exclusive after := by
  have elsewhere
      {next : Cpu Own Data} {shared : Memory Data}
      (others : ∀ other, other ≠ cpu → ¬ (before.locals other).Inside)
      (taken : shared.lock = true ↔ next.Inside) :
      Exclusive
        (⟨shared, Function.update before.locals cpu next⟩ :
          Machine Index Own Data) := by
    apply @exclusive_of_others _ _ _ cpu
    · dsimp only
      rwa [Function.update_self]
    · intro other different
      dsimp only
      rw [Function.update_of_ne different]
      exact others other different
  cases moves with
  | @waits point next own jobs here outside still =>
      apply exclusive.outside
      · rw [here]
        rintro ⟨left, rfl⟩
        rcases outside with outside | outside <;> cases outside
      · rintro ⟨left, rfl⟩
        rcases still with still | still <;> cases still
  | refused here mayFail =>
      apply exclusive.outside
      · rw [here]
        rintro ⟨left, ⟨⟩⟩
      · rintro ⟨left, ⟨⟩⟩
  | finishes here =>
      apply exclusive.outside
      · rw [here]
        rintro ⟨left, ⟨⟩⟩
      · rintro ⟨left, ⟨⟩⟩
  | acquires here free =>
      refine elsewhere ?_ ⟨fun _ => ⟨_, rfl⟩, fun _ => rfl⟩
      intro other _ inside
      have taken := exclusive.locked other inside
      rw [free] at taken
      cases taken
  | accesses here =>
      have inside : (before.locals cpu).Inside := ⟨_, by rw [here]⟩
      have taken := exclusive.locked cpu inside
      exact
        elsewhere (exclusive.others inside)
          ⟨fun _ => ⟨_, rfl⟩, fun _ => taken⟩
  | releases here =>
      have inside : (before.locals cpu).Inside := ⟨_, by rw [here]⟩
      refine elsewhere (exclusive.others inside) ⟨?_, ?_⟩
      · rintro ⟨⟩
      · rintro ⟨left, ⟨⟩⟩

/-- And so does every run. -/
theorem exclusive_execution
    {trace : List Index}
    (execution : Execution step (started start) trace state) :
    Exclusive state :=
  execution.invariant Exclusive exclusive_started
    fun _ _ _ exclusive stepped =>
      exclusive_step exclusive (moves_of_step stepped)

/-! ## The order of the sections -/

/-- A processor once the section it is in is over. -/
def Cpu.settled : Cpu Own Data → Data → Own × List (Job Own Data)
  | ⟨.locked left, own, job :: jobs⟩, data =>
      (job.unlocked (runAll left own data).1, jobs)
  | ⟨.unlocked, own, job :: jobs⟩, _ => (job.unlocked own, jobs)
  | ⟨_, own, jobs⟩, _ => (own, jobs)

omit [DecidableEq Index] in
theorem settled_of_outside
    {here : Cpu Own Data}
    (outside : ¬ here.Inside)
    (data other : Data) :
    here.settled data = here.settled other := by
  rcases here with ⟨point, own, jobs⟩
  cases point with
  | locked left => exact absurd ⟨left, rfl⟩ outside
  | unlocked => cases jobs <;> rfl
  | _ => rfl

omit [DecidableEq Index] in
/-- A processor that waits has finished what it began. -/
theorem settled_waiting
    {point : Point Own Data} {own : Own} {jobs : List (Job Own Data)}
    (outside : point = .testAndSet ∨ point = .polling)
    (data : Data) :
    (⟨point, own, jobs⟩ : Cpu Own Data).settled data = (own, jobs) := by
  rcases outside with rfl | rfl <;> rfl

/-- The machine is on the way to a state of the serial one: a section counts
from the moment in which the lock is acquired. -/
structure Serialized
    (state : Machine Index Own Data) (serial : Serial Index Own Data) :
    Prop where
  settled :
    ∀ cpu,
      (serial.own cpu, serial.jobs cpu) =
        (state.locals cpu).settled state.shared.data
  free : state.shared.lock = false → serial.data = state.shared.data
  held :
    ∀ cpu left,
      (state.locals cpu).point = .locked left →
        serial.data =
          (runAll left (state.locals cpu).own state.shared.data).2

omit [DecidableEq Index] in
/-- Nothing has run yet. -/
theorem serialized_started : Serialized (started start) start where
  settled _ := rfl
  free _ := rfl
  held := by
    rintro cpu left ⟨⟩

/-- What the others see does not change with the data. -/
theorem Serialized.settled_update
    (serialized : Serialized before serial)
    {next : Cpu Own Data} {data : Data} {own : Index → Own}
    {jobs : Index → List (Job Own Data)}
    (others :
      data = before.shared.data ∨
        ∀ other, other ≠ cpu → ¬ (before.locals other).Inside)
    (here : (own cpu, jobs cpu) = next.settled data)
    (elsewhere :
      ∀ other, other ≠ cpu →
        own other = serial.own other ∧ jobs other = serial.jobs other)
    (other : Index) :
    (own other, jobs other) =
      (Function.update before.locals cpu next other).settled data := by
  by_cases same : other = cpu
  · rw [same, Function.update_self]
    exact here
  · rw [Function.update_of_ne same, (elsewhere other same).1,
      (elsewhere other same).2, serialized.settled other]
    rcases others with rfl | outside
    · rfl
    · exact settled_of_outside (outside other same) _ _

theorem Serialized.held_update
    (serialized : Serialized before serial)
    {next : Cpu Own Data} {data serialData : Data}
    (others :
      (data = before.shared.data ∧ serialData = serial.data) ∨
        ∀ other, other ≠ cpu → ¬ (before.locals other).Inside)
    (here :
      ∀ left,
        next.point = .locked left →
          serialData = (runAll left next.own data).2)
    (other : Index) (left : List (Access Own Data))
    (inside :
      (Function.update before.locals cpu next other).point = .locked left) :
    serialData =
      (runAll left (Function.update before.locals cpu next other).own
        data).2 := by
  by_cases same : other = cpu
  · rw [same, Function.update_self] at inside ⊢
    exact here left inside
  · rw [Function.update_of_ne same] at inside ⊢
    rcases others with ⟨rfl, rfl⟩ | outside
    · exact serialized.held other left inside
    · exact absurd ⟨left, inside⟩ (outside other same)

/-- The serial machine makes one step when the lock is acquired or refused,
and none otherwise. -/
theorem serialized_step
    (exclusive : Exclusive before)
    (serialized : Serialized before serial)
    (moves : Moves before cpu after) :
    Serialized after serial ∨
      ∃ passage next,
        SerialStep serial (cpu, passage) next ∧ Serialized after next := by
  have settledHere := serialized.settled cpu
  have unchanged (other : Index) (_ : other ≠ cpu) :
      serial.own other = serial.own other ∧
        serial.jobs other = serial.jobs other :=
    ⟨rfl, rfl⟩
  cases moves with
  | @waits point next own jobs here outside still =>
      left
      rw [here, settled_waiting outside] at settledHere
      constructor
      · apply serialized.settled_update (Or.inl rfl) _ unchanged
        rw [settledHere, settled_waiting still]
      · exact serialized.free
      · apply serialized.held_update (Or.inl ⟨rfl, rfl⟩)
        intro left inside
        rcases still with still | still <;> cases still.symm.trans inside
  | @refused own job jobs refused here mayFail =>
      right
      rw [here] at settledHere
      rcases Prod.mk.inj settledHere with ⟨ownHere, jobsHere⟩
      refine ⟨.refused, _, .refused jobsHere mayFail, ?_⟩
      constructor
      · apply serialized.settled_update (Or.inl rfl)
        · dsimp only
          rw [Function.update_self, Function.update_self, ownHere]
          rfl
        · intro other different
          exact
            ⟨Function.update_of_ne different _ _,
              Function.update_of_ne different _ _⟩
      · exact serialized.free
      · apply serialized.held_update (Or.inl ⟨rfl, rfl⟩)
        rintro left ⟨⟩
  | @acquires own job jobs here free =>
      right
      rw [here] at settledHere
      rcases Prod.mk.inj settledHere with ⟨ownHere, jobsHere⟩
      have sameData := serialized.free free
      have nobody (other : Index) (_ : other ≠ cpu) :
          ¬ (before.locals other).Inside := by
        intro inside
        have taken := exclusive.locked other inside
        rw [free] at taken
        cases taken
      refine ⟨.whole, _, .whole jobsHere rfl, ?_⟩
      rw [ownHere, sameData]
      constructor
      · apply serialized.settled_update (Or.inl rfl)
        · dsimp only
          rw [Function.update_self, Function.update_self]
          rfl
        · intro other different
          exact
            ⟨Function.update_of_ne different _ _,
              Function.update_of_ne different _ _⟩
      · rintro ⟨⟩
      · apply serialized.held_update (Or.inr nobody)
        rintro left ⟨⟩
        rfl
  | accesses here =>
      left
      have inside : (before.locals cpu).Inside := ⟨_, by rw [here]⟩
      have others := exclusive.others inside
      have runs := serialized.held cpu _ (by rw [here])
      rw [here] at settledHere runs
      constructor
      · exact serialized.settled_update (Or.inr others) settledHere unchanged
      · intro free
        have taken := exclusive.locked cpu inside
        rw [taken] at free
        cases free
      · apply serialized.held_update (Or.inr others)
        rintro left ⟨⟩
        exact runs
  | releases here =>
      left
      have inside : (before.locals cpu).Inside := ⟨_, by rw [here]⟩
      have runs := serialized.held cpu _ (by rw [here])
      rw [here] at settledHere runs
      constructor
      · exact serialized.settled_update (Or.inl rfl) settledHere unchanged
      · intro _
        exact runs
      · apply serialized.held_update (Or.inl ⟨rfl, rfl⟩)
        rintro left ⟨⟩
  | finishes here =>
      left
      rw [here] at settledHere
      constructor
      · exact serialized.settled_update (Or.inl rfl) settledHere unchanged
      · exact serialized.free
      · apply serialized.held_update (Or.inl ⟨rfl, rfl⟩)
        rintro left ⟨⟩

/-- Every run leaves what whole sections in some order leave. -/
theorem serialized_execution
    {trace : List Index}
    (execution : Execution step (started start) trace state) :
    ∃ order serial,
      SerialRun start order serial ∧
        Exclusive state ∧ Serialized state serial := by
  induction execution with
  | start => exact ⟨[], start, .start, exclusive_started, serialized_started⟩
  | step earlier last induction =>
      rcases induction with ⟨order, serial, run, exclusive, serialized⟩
      have moves := moves_of_step last
      have afterExclusive := exclusive_step exclusive moves
      rcases serialized_step exclusive serialized moves with
        same | ⟨passage, next, stepped, afterSerialized⟩
      · exact ⟨order, serial, run, afterExclusive, same⟩
      · exact
          ⟨_, next, run.step stepped, afterExclusive, afterSerialized⟩

end NopOS.Smp.Spinlock
