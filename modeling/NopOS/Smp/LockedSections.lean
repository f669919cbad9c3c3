import NopOS.Smp.Spinlock

/-!
# What sections under a spin lock can rely on

No processor is ever kept out for good, and what all beginnings of sections
keep is an invariant of the data, also in the middle of a section.
-/

namespace NopOS.Smp.LockedSections

open NopOS.Lib.LabelledRun
open NopOS.Lib.Interleaving
open NopOS.Smp.Spinlock

variable {Index Own Data : Type*} [DecidableEq Index]
    {start serial : Serial Index Own Data} {cpu : Index}
    {before after state : Machine Index Own Data}

/-! ## Progress -/

/-- A processor in its section can leave it, whatever the others do later. -/
theorem exists_release
    {left : List (Access Own Data)} {own : Own} {job : Job Own Data}
    {jobs : List (Job Own Data)}
    (here : state.locals cpu = ⟨.locked left, own, job :: jobs⟩) :
    ∃ later next ownAfter,
      Execution step state later next ∧
        next.shared.lock = false ∧
        next.locals cpu = ⟨.testAndSet, ownAfter, jobs⟩ ∧
        ∀ other, other ≠ cpu → next.locals other = state.locals other := by
  induction left generalizing state own with
  | nil =>
      let released : Machine Index Own Data :=
        ⟨⟨false, state.shared.data⟩,
          Function.update state.locals cpu ⟨.unlocked, own, job :: jobs⟩⟩
      have first : Step step state cpu released :=
        ⟨_, _, by rw [here]; rfl, rfl⟩
      have unlocked : released.locals cpu = ⟨.unlocked, own, job :: jobs⟩ :=
        Function.update_self _ _ _
      have second :
          Step step released cpu
            ⟨released.shared,
              Function.update released.locals cpu
                ⟨.testAndSet, job.unlocked own, jobs⟩⟩ :=
        ⟨_, _, by rw [unlocked]; rfl, rfl⟩
      refine
        ⟨_, _, job.unlocked own, (Run.start.step first).step second, rfl,
          Function.update_self _ _ _, ?_⟩
      intro other different
      exact
        (second.locals_of_ne different).trans (first.locals_of_ne different)
  | cons access left induction =>
      let moved : Machine Index Own Data :=
        ⟨⟨state.shared.lock, (access own state.shared.data).2⟩,
          Function.update state.locals cpu
            ⟨.locked left, (access own state.shared.data).1, job :: jobs⟩⟩
      have first : Step step state cpu moved :=
        ⟨_, _, by rw [here]; rfl, rfl⟩
      rcases
        @induction moved (access own state.shared.data).1
          (Function.update_self _ _ _) with
        ⟨later, next, ownAfter, execution, free, atEnd, others⟩
      refine
        ⟨_, next, ownAfter, Run.cons first execution, free, atEnd, ?_⟩
      intro other different
      exact (others other different).trans (first.locals_of_ne different)

/-- While the lock is free, a processor can go through all its sections. -/
theorem exists_completion
    {own : Own} {jobs : List (Job Own Data)}
    (free : state.shared.lock = false)
    (here : state.locals cpu = ⟨.testAndSet, own, jobs⟩) :
    ∃ later next,
      Execution step state later next ∧
        (next.locals cpu).jobs = [] := by
  induction jobs generalizing state own with
  | nil => exact ⟨_, state, .start, by rw [here]⟩
  | cons job jobs induction =>
      let locked : Machine Index Own Data :=
        ⟨{ state.shared with lock := true },
          Function.update state.locals cpu
            ⟨.locked job.locked, own, job :: jobs⟩⟩
      have first : Step step state cpu locked := by
        refine ⟨_, _, ?_, rfl⟩
        rw [here, step, if_neg (by rw [free]; decide)]
      have inside :
          locked.locals cpu = ⟨.locked job.locked, own, job :: jobs⟩ :=
        Function.update_self _ _ _
      rcases exists_release inside with
        ⟨middle, released, ownAfter, releases, releasedFree, atEnd, -⟩
      rcases induction releasedFree atEnd with ⟨later, next, completes, done⟩
      exact
        ⟨_, next, Run.cons first (releases.trans completes), done⟩

/-- A processor outside its section only has to wait for the lock. -/
theorem exists_completion_of_outside
    (free : state.shared.lock = false)
    (outside : ¬ (state.locals cpu).Inside) :
    ∃ later next,
      Execution step state later next ∧
        (next.locals cpu).jobs = [] := by
  rcases here : state.locals cpu with ⟨point, own, - | ⟨job, jobs⟩⟩
  · exact ⟨_, state, .start, by rw [here]⟩
  cases point with
  | testAndSet => exact exists_completion free here
  | polling =>
      let ready : Machine Index Own Data :=
        ⟨state.shared,
          Function.update state.locals cpu ⟨.testAndSet, own, job :: jobs⟩⟩
      have first : Step step state cpu ready := by
        refine ⟨_, _, ?_, rfl⟩
        rw [here, step, if_neg (by rw [free]; decide)]
      rcases
        @exists_completion _ _ _ _ cpu ready _ _ free
          (Function.update_self _ _ _) with
        ⟨later, next, completes, done⟩
      exact ⟨_, next, Run.cons first completes, done⟩
  | locked left =>
      rw [here] at outside
      exact absurd ⟨left, rfl⟩ outside
  | unlocked =>
      let ready : Machine Index Own Data :=
        ⟨state.shared,
          Function.update state.locals cpu
            ⟨.testAndSet, job.unlocked own, jobs⟩⟩
      have first : Step step state cpu ready :=
        ⟨_, _, by rw [here]; rfl, rfl⟩
      rcases
        @exists_completion _ _ _ _ cpu ready _ _ free
          (Function.update_self _ _ _) with
        ⟨later, next, completes, done⟩
      exact ⟨_, next, Run.cons first completes, done⟩

/-- A processor in its section has a section. -/
def Working (state : Machine Index Own Data) : Prop :=
  ∀ cpu, (state.locals cpu).Inside → (state.locals cpu).jobs ≠ []

/-- A step leaves each processor that is inside with a section to run. -/
theorem working_step
    (working : Working before)
    (moves : Moves before cpu after) :
    Working after := by
  have elsewhere
      {next : Cpu Own Data} {shared : Memory Data}
      (here : next.Inside → next.jobs ≠ []) :
      Working
        (⟨shared, Function.update before.locals cpu next⟩ :
          Machine Index Own Data) := by
    intro other
    by_cases same : other = cpu
    · dsimp only
      rwa [same, Function.update_self]
    · dsimp only
      rw [Function.update_of_ne same]
      exact working other
  cases moves with
  | @waits point next own jobs here outside still =>
      apply elsewhere
      rintro ⟨left, rfl⟩
      rcases still with still | still <;> cases still
  | acquires | accesses =>
      apply elsewhere
      intro _
      exact List.cons_ne_nil _ _
  | refused | releases | finishes =>
      apply elsewhere
      rintro ⟨left, ⟨⟩⟩

/-- And so does every run. -/
theorem working_execution
    {trace : List Index}
    (execution : Execution step (started start) trace state) :
    Working state := by
  refine execution.invariant Working ?_ ?_
  · rintro cpu ⟨left, ⟨⟩⟩
  · intro _ _ _ working stepped
    exact working_step working (moves_of_step stepped)

/-! ## States in the middle of a section -/

omit [DecidableEq Index] in
/-- Accesses run one after another. -/
theorem runAll_append
    (first second : List (Access Own Data)) (own : Own) (data : Data) :
    runAll (first ++ second) own data =
      runAll second (runAll first own data).1 (runAll first own data).2 := by
  induction first generalizing own data with
  | nil => rfl
  | cons access first induction => exact induction _ _

/-- The sections which are left are among those at the start. -/
theorem jobs_of_serialRun
    {order : List (Index × Passage)}
    (run : SerialRun start order serial)
    (cpu : Index) :
    serial.jobs cpu ⊆ start.jobs cpu := by
  have shorter
      {queues : Index → List (Job Own Data)} {stepping : Index}
      {job : Job Own Data} {rest : List (Job Own Data)}
      (next : queues stepping = job :: rest)
      (before : queues cpu ⊆ start.jobs cpu) :
      Function.update queues stepping rest cpu ⊆ start.jobs cpu := by
    by_cases same : cpu = stepping
    · subst same
      rw [Function.update_self]
      rw [next] at before
      exact List.Subset.trans (List.subset_cons_self job rest) before
    · rwa [Function.update_of_ne same]
  induction run with
  | start => exact List.Subset.refl _
  | step earlier last induction =>
      cases last with
      | whole next runs => exact shorter next induction
      | refused next mayFail => exact shorter next induction

/-- The data is that of a state of the serial machine, or a processor is in
the middle of a section which it started there. -/
def Underway
    (state : Machine Index Own Data) (earlier : Serial Index Own Data) :
    Prop :=
  (state.shared.lock = false ∧ state.shared.data = earlier.data) ∨
    ∃ cpu job jobs done left own,
      state.locals cpu = ⟨.locked left, own, job :: jobs⟩ ∧
        earlier.jobs cpu = job :: jobs ∧
        job.locked = done ++ left ∧
        runAll done (earlier.own cpu) earlier.data = (own, state.shared.data)

theorem Underway.outside
    {earlier : Serial Index Own Data} {next : Cpu Own Data}
    (underway : Underway before earlier)
    (was : ¬ (before.locals cpu).Inside) :
    Underway
      (⟨before.shared, Function.update before.locals cpu next⟩ :
        Machine Index Own Data)
      earlier := by
  rcases underway with
    settled | ⟨holder, job, jobs, done, left, own, here, parts⟩
  · exact Or.inl settled
  · right
    have elsewhere : holder ≠ cpu := by
      rintro rfl
      exact was ⟨left, by rw [here]⟩
    refine ⟨holder, job, jobs, done, left, own, ?_, parts⟩
    dsimp only
    rw [Function.update_of_ne elsewhere]
    exact here

theorem underway_step
    {earlier : Serial Index Own Data}
    (exclusive : Exclusive before)
    (serialized : Serialized before serial)
    (underway : Underway before earlier)
    (moves : Moves before cpu after) :
    Underway after earlier ∨ Underway after serial := by
  cases moves with
  | @waits point next own jobs here outside still =>
      left
      apply underway.outside
      rw [here]
      rintro ⟨left, rfl⟩
      rcases outside with outside | outside <;> cases outside
  | refused here mayFail =>
      left
      apply underway.outside
      rw [here]
      rintro ⟨left, ⟨⟩⟩
  | finishes here =>
      left
      apply underway.outside
      rw [here]
      rintro ⟨left, ⟨⟩⟩
  | @acquires own job jobs here free =>
      right
      right
      have settled := serialized.settled cpu
      rw [here] at settled
      rcases Prod.mk.inj settled with ⟨ownHere, jobsHere⟩
      refine
        ⟨cpu, job, jobs, [], job.locked, own, Function.update_self _ _ _,
          jobsHere, rfl, ?_⟩
      rw [ownHere, serialized.free free]
      rfl
  | @accesses own job jobs access rest here =>
      left
      right
      have inside : (before.locals cpu).Inside := ⟨_, by rw [here]⟩
      rcases underway with
        ⟨free, -⟩ |
          ⟨holder, held, later, done, left, heldOwn, there, jobsHere,
            parts, runs⟩
      · have taken := exclusive.locked cpu inside
        rw [free] at taken
        cases taken
      have same := exclusive.one holder cpu ⟨left, by rw [there]⟩ inside
      subst same
      rw [here] at there
      cases there
      refine
        ⟨holder, job, jobs, done ++ [access], rest, _,
          Function.update_self _ _ _, jobsHere, ?_, ?_⟩
      · rw [parts, List.append_assoc]
        rfl
      · rw [runAll_append, runs]
        rfl
  | releases here =>
      right
      left
      have runs := serialized.held cpu [] (by rw [here])
      exact ⟨rfl, runs.symm⟩

theorem underway_execution
    {trace : List Index}
    (execution : Execution step (started start) trace state) :
    ∃ order earlier,
      SerialRun start order earlier ∧ Underway state earlier := by
  have both :
      ∃ order earlier,
        SerialRun start order earlier ∧
          Underway state earlier ∧
          ∃ later serial,
            SerialRun start later serial ∧
              Exclusive state ∧ Serialized state serial := by
    induction execution with
    | start =>
        exact
          ⟨[], start, .start, Or.inl ⟨rfl, rfl⟩, [], start, .start,
            exclusive_started, serialized_started⟩
    | step execution last induction =>
        rcases induction with
          ⟨order, earlier, earlierRun, underway, later, serial, run,
            exclusive, serialized⟩
        have moves := moves_of_step last
        have serializes := serialized_execution (execution.step last)
        rcases underway_step exclusive serialized underway moves with
          same | advanced
        · exact ⟨order, earlier, earlierRun, same, serializes⟩
        · exact ⟨later, serial, run, advanced, serializes⟩
  rcases both with ⟨order, earlier, run, underway, -⟩
  exact ⟨order, earlier, run, underway⟩

/-- What every beginning of every section keeps holds at any time. -/
theorem data_invariant
    {property : Data → Prop}
    (initially : property start.data)
    (kept :
      ∀ cpu, ∀ job ∈ start.jobs cpu,
        ∀ done left,
          job.locked = done ++ left →
            ∀ own data, property data → property (runAll done own data).2)
    {trace : List Index}
    (execution : Execution step (started start) trace state) :
    property state.shared.data := by
  have whole
      {order : List (Index × Passage)} {serial : Serial Index Own Data}
      (run : SerialRun start order serial) :
      property serial.data := by
    induction run with
    | start => exact initially
    | @step labels label before after earlier last induction =>
        cases last with
        | @whole cpu job jobs own data next runs =>
            have inStart :=
              jobs_of_serialRun earlier cpu (next ▸ List.mem_cons_self)
            have kept :=
              kept cpu job inStart job.locked [] (List.append_nil _).symm
                (before.own cpu) before.data induction
            rw [runs] at kept
            exact kept
        | refused next mayFail => exact induction
  rcases underway_execution execution with
    ⟨order, earlier, run, ⟨-, same⟩ |
      ⟨cpu, job, jobs, done, left, own, here, next, parts, runs⟩⟩
  · rw [same]
    exact whole run
  · have inStart := jobs_of_serialRun run cpu (next ▸ List.mem_cons_self)
    have after :=
      kept cpu job inStart done left parts (earlier.own cpu) earlier.data
        (whole run)
    rw [runs] at after
    exact after

/-! ## The lock as a whole -/

/-- However the processors interleave, the lock is taken exactly while one of
them is in its section, and no two are. -/
theorem spinlock_excludes
    {trace : List Index}
    (execution : Execution step (started start) trace state) :
    (state.shared.lock = true ↔ ∃ cpu, (state.locals cpu).Inside) ∧
      ∀ cpu other,
        (state.locals cpu).Inside →
          (state.locals other).Inside → cpu = other := by
  have exclusive := exclusive_execution execution
  refine ⟨⟨exclusive.someone, ?_⟩, exclusive.one⟩
  rintro ⟨cpu, inside⟩
  exact exclusive.locked cpu inside

/-- However the processors interleave, there is an order of whole sections
which leads to the same data once the lock is free, and to the same processors
once they are outside or wait for the lock. -/
theorem sections_in_some_order
    {trace : List Index}
    (execution : Execution step (started start) trace state) :
    ∃ order serial,
      SerialRun start order serial ∧
        (state.shared.lock = false → serial.data = state.shared.data) ∧
        ∀ cpu,
          (state.locals cpu).point = .testAndSet ∨
              (state.locals cpu).point = .polling →
            serial.own cpu = (state.locals cpu).own ∧
              serial.jobs cpu = (state.locals cpu).jobs := by
  rcases serialized_execution execution with
    ⟨order, serial, run, -, serialized⟩
  refine ⟨order, serial, run, serialized.free, ?_⟩
  intro cpu outside
  have settled := serialized.settled cpu
  rcases here : state.locals cpu with ⟨point, own, jobs⟩
  rw [here] at settled outside
  dsimp only at outside
  rw [settled_waiting outside] at settled
  exact Prod.mk.inj settled

/-- There is no deadlock: from every state which the processors reach, each of
them can get through all its sections. -/
theorem spinlock_progress
    {trace : List Index}
    (execution : Execution step (started start) trace state)
    (cpu : Index) :
    ∃ later next,
      Execution step state later next ∧
        (next.locals cpu).jobs = [] := by
  have exclusive := exclusive_execution execution
  by_cases taken : state.shared.lock = true
  · rcases exclusive.someone taken with ⟨holder, left, inside⟩
    have someJob := working_execution execution holder ⟨left, inside⟩
    rcases here : state.locals holder with ⟨point, own, - | ⟨job, jobs⟩⟩
    · rw [here] at someJob
      exact absurd rfl someJob
    rw [here] at inside
    dsimp only at inside
    rw [inside] at here
    rcases exists_release here with
      ⟨middle, released, ownAfter, releases, free, atEnd, others⟩
    have outside : ¬ (released.locals cpu).Inside := by
      by_cases same : cpu = holder
      · rw [same, atEnd]
        rintro ⟨left, ⟨⟩⟩
      · rw [others cpu same]
        exact
          exclusive.others ⟨left, by rw [here]⟩ cpu same
    rcases exists_completion_of_outside free outside with
      ⟨later, next, completes, done⟩
    exact ⟨_, next, releases.trans completes, done⟩
  · have free := Bool.eq_false_of_not_eq_true taken
    apply exists_completion_of_outside free
    intro inside
    exact taken (exclusive.locked cpu inside)

/-! ## An example -/

/-- Two processors which count. -/
def sampleStart : Serial (Fin 2) Unit Nat where
  data := 0
  own _ := ()
  jobs _ := [⟨[fun own count => (own, count + 1)], id, none⟩]

/-- One processor has counted, and the other one waits for the lock. -/
def sampleState : Machine (Fin 2) Unit Nat :=
  ⟨⟨true, 1⟩,
    Function.update
      (Function.update (started sampleStart).locals 0
        ⟨.locked [], (), sampleStart.jobs 0⟩)
      1 ⟨.polling, (), sampleStart.jobs 1⟩⟩

theorem execution_sampleState :
    Execution step (started sampleStart)
      (([] ++ List.replicate 2 0) ++ List.replicate 1 1) sampleState :=
  Execution.alone
    (Execution.alone
      (Run.start : Execution step (started sampleStart) [] _) 0 2 rfl)
    1 1 rfl

theorem spinlock_excludes_sample :
    (sampleState.shared.lock = true ↔
        ∃ cpu, (sampleState.locals cpu).Inside) ∧
      ∀ cpu other,
        (sampleState.locals cpu).Inside →
          (sampleState.locals other).Inside → cpu = other :=
  spinlock_excludes execution_sampleState

theorem sections_in_some_order_sample :
    ∃ order serial,
      SerialRun sampleStart order serial ∧
        (sampleState.shared.lock = false →
          serial.data = sampleState.shared.data) ∧
        ∀ cpu,
          (sampleState.locals cpu).point = .testAndSet ∨
              (sampleState.locals cpu).point = .polling →
            serial.own cpu = (sampleState.locals cpu).own ∧
              serial.jobs cpu = (sampleState.locals cpu).jobs :=
  sections_in_some_order execution_sampleState

theorem spinlock_progress_sample :
    ∃ later next,
      Execution step sampleState later next ∧
        (next.locals 1).jobs = [] :=
  spinlock_progress execution_sampleState 1

end NopOS.Smp.LockedSections
