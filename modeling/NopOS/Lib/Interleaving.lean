import NopOS.Lib.LabelledRun

/-!
# Processes which interleave on shared memory

Every process runs the same program on a local state and a shared one.  A
transition of the system is one instruction of one process, which is its
label; a process which cannot go on has no transition.
-/

namespace NopOS.Lib.Interleaving

open NopOS.Lib.LabelledRun

variable {Index Local Shared : Type*} [DecidableEq Index]

/-- The shared state, and the local one of each process. -/
structure State (Index Local Shared : Type*) where
  shared : Shared
  locals : Index → Local

/-- One instruction of a process. -/
abbrev Program (Local Shared : Type*) :=
  Local → Shared → Option (Local × Shared)

/-- One process executes one instruction. -/
def Step (program : Program Local Shared)
    (before : State Index Local Shared) (process : Index)
    (after : State Index Local Shared) : Prop :=
  ∃ next shared,
    program (before.locals process) before.shared = some (next, shared) ∧
      after = ⟨shared, Function.update before.locals process next⟩

/-- Instructions of processes in any order, with the process of each. -/
abbrev Execution (program : Program Local Shared)
    (start : State Index Local Shared) :=
  Run (Step program) start

variable
    {program : Program Local Shared}
    {before after : State Index Local Shared} {process : Index}

theorem Step.runs (step : Step program before process after) :
    program (before.locals process) before.shared =
      some (after.locals process, after.shared) := by
  rcases step with ⟨next, shared, runs, rfl⟩
  simp only [runs, Function.update_self]

/-- A step leaves the other processes alone. -/
theorem Step.locals_of_ne
    (step : Step program before process after) {other : Index}
    (different : other ≠ process) :
    after.locals other = before.locals other := by
  rcases step with ⟨next, shared, -, rfl⟩
  exact Function.update_of_ne different _ _

/-- A number of instructions of one process, undisturbed. -/
def alone (program : Program Local Shared) :
    Nat → Local → Shared → Option (Local × Shared)
  | 0, here, shared => some (here, shared)
  | count + 1, here, shared =>
      match program here shared with
      | none => none
      | some (next, shared) => alone program count next shared

/-- What a process does undisturbed is one of the executions. -/
theorem Execution.alone
    {start : State Index Local Shared} {trace : List Index}
    (execution : Execution program start trace before)
    (process : Index) (count : Nat) {next : Local} {shared : Shared}
    (runs :
      Interleaving.alone program count (before.locals process)
          before.shared =
        some (next, shared)) :
    Execution program start (trace ++ List.replicate count process)
      ⟨shared, Function.update before.locals process next⟩ := by
  induction count generalizing before trace with
  | zero =>
      simp only [Interleaving.alone, Option.some.injEq, Prod.mk.injEq] at runs
      rcases runs with ⟨rfl, rfl⟩
      simpa using execution
  | succ count induction =>
      rw [Interleaving.alone] at runs
      cases first : program (before.locals process) before.shared with
      | none => simp [first] at runs
      | some result =>
          rcases result with ⟨middle, middleShared⟩
          rw [first] at runs
          have step :
              Step program before process
                ⟨middleShared,
                  Function.update before.locals process middle⟩ :=
            ⟨middle, middleShared, first, rfl⟩
          have later := induction (execution.step step) (by
            simpa only [Function.update_self] using runs)
          simpa [List.replicate_succ, Function.update_idem] using later

/-! ## What processes hold -/

section Holdings

variable {Resource : Type*} {holds : Local → Option Resource}
    {indices : List Index}

/-- The resources which processes hold. -/
def holdings (holds : Local → Option Resource) (indices : List Index)
    (state : State Index Local Shared) : List Resource :=
  indices.filterMap fun index => holds (state.locals index)

omit [DecidableEq Index] in
theorem mem_holdings
    {state : State Index Local Shared} {resource : Resource} :
    resource ∈ holdings holds indices state ↔
      ∃ index ∈ indices, holds (state.locals index) = some resource :=
  List.mem_filterMap

omit [DecidableEq Index] in
theorem holdings_congr
    (same : ∀ index ∈ indices,
      holds (after.locals index) = holds (before.locals index)) :
    holdings holds indices after = holdings holds indices before :=
  List.filterMap_congr same

omit [DecidableEq Index] in
/-- What one of the processes holds stands between the others. -/
theorem holdings_middle
    (first second : List Index) (state : State Index Local Shared) :
    holdings holds (first ++ process :: second) state =
      holdings holds first state ++
        ((holds (state.locals process)).toList ++
          holdings holds second state) := by
  rw [holdings, List.filterMap_append, List.filterMap_cons]
  cases holds (state.locals process) with
  | none => rfl
  | some resource => rfl

/-- A step in which the process keeps what it holds. -/
theorem Step.holdings_of_keep
    (step : Step program before process after)
    (keep :
      holds (after.locals process) = holds (before.locals process)) :
    holdings holds indices after = holdings holds indices before := by
  apply holdings_congr
  intro index _
  by_cases same : index = process
  · rw [same, keep]
  · rw [step.locals_of_ne same]

/-- A step in which the process takes a resource. -/
theorem Step.holdings_of_take
    (step : Step program before process after) (listed : process ∈ indices)
    (distinct : indices.Nodup) {resource : Resource}
    (without : holds (before.locals process) = none)
    (taken : holds (after.locals process) = some resource) :
    (holdings holds indices after).Perm
      (resource :: holdings holds indices before) := by
  rcases List.append_of_mem listed with ⟨first, second, rfl⟩
  have elsewhere (index : Index) (different : index ≠ process) :
      holds (after.locals index) = holds (before.locals index) := by
    rw [step.locals_of_ne different]
  have notFirst (index : Index) (member : index ∈ first) :
      index ≠ process := by
    rintro rfl
    exact (List.nodup_append.mp distinct).2.2 _ member _
      List.mem_cons_self rfl
  have notSecond (index : Index) (member : index ∈ second) :
      index ≠ process := by
    rintro rfl
    exact (List.nodup_cons.mp (List.nodup_append.mp distinct).2.1).1 member
  have firstSame :
      holdings holds first after = holdings holds first before :=
    holdings_congr fun index member => elsewhere index (notFirst index member)
  have secondSame :
      holdings holds second after = holdings holds second before :=
    holdings_congr fun index member =>
      elsewhere index (notSecond index member)
  rw [holdings_middle, holdings_middle, without, taken, firstSame,
    secondSame]
  exact List.perm_middle

omit [DecidableEq Index] in
/-- A process without a resource leaves the others fewer than all. -/
theorem length_holdings_lt
    {state : State Index Local Shared} (listed : process ∈ indices)
    (without : holds (state.locals process) = none) :
    (holdings holds indices state).length < indices.length := by
  rcases List.append_of_mem listed with ⟨first, second, rfl⟩
  have firstBound : (holdings holds first state).length ≤ first.length :=
    List.length_filterMap_le _ _
  have secondBound : (holdings holds second state).length ≤ second.length :=
    List.length_filterMap_le _ _
  rw [holdings_middle, without, Option.toList_none, List.nil_append,
    List.length_append, List.length_append, List.length_cons]
  omega

omit [DecidableEq Index] in
/-- Processes hold different resources if no resource is held twice. -/
theorem holdings_ne
    {state : State Index Local Shared}
    (once : (holdings holds indices state).Nodup) {first second : Index}
    (firstListed : first ∈ indices) (secondListed : second ∈ indices)
    (different : first ≠ second) {resource other : Resource}
    (held : holds (state.locals first) = some resource)
    (otherHeld : holds (state.locals second) = some other) :
    resource ≠ other := by
  have pairs := List.pairwise_filterMap.mp once
  have symmetric :
      Std.Symm fun first second : Index =>
        ∀ resource, holds (state.locals first) = some resource →
          ∀ other, holds (state.locals second) = some other →
            resource ≠ other :=
    ⟨fun _ _ apart resource held other otherHeld =>
      (apart other otherHeld resource held).symm⟩
  exact pairs.forall firstListed secondListed different resource held other
    otherHeld

end Holdings

end NopOS.Lib.Interleaving
