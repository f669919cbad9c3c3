import NopOS.Lib.Interleaving

/-!
# The rendezvous of the processors

Every application processor counts itself in `smp_processors`, which starts
at 1 for the boot processor, and all processors wait until the counter is the
number of processors.
-/

namespace NopOS.Smp.Rendezvous

open NopOS.Lib.LabelledRun
open NopOS.Lib.Interleaving

/-- Where a processor is in `launch` or in `smp_main`. -/
inductive Cpu where
  | launch
  | smpMain
  | polling
  | left
deriving DecidableEq

/-- The counter `smp_processors`. -/
abbrev Counter := BitVec 32

/--
The steps on the counter: the boot processor sends the IPIs, an application
processor increments, and both compare with `cpus->size()` until it is equal.
-/
def rendezvous (size : Nat) : Program Cpu Counter
  | .launch, smpProcessors => some (.polling, smpProcessors)
  | .smpMain, smpProcessors => some (.polling, smpProcessors + 1)
  | .polling, smpProcessors =>
      if smpProcessors.toNat ≠ size then some (.polling, smpProcessors)
      else some (.left, smpProcessors)
  | .left, _ => none

/-- The counter and where each of `n` processors is. -/
abbrev SmpState (n : Nat) := State (Fin n) Cpu Counter

/-- The processors when `launch` is entered. -/
def started {n : Nat} (bootCpu : Fin n) : SmpState n where
  shared := 1
  locals i := if i = bootCpu then .launch else .smpMain

/-- The interleavings of the processors from the start of `launch`. -/
abbrev SmpRun {n : Nat} (bootCpu : Fin n) :=
  Execution (rendezvous n) (started bootCpu)

/-! ## The counter counts -/

/-- The processors which have not incremented yet. -/
def awaited {n : Nat} (state : SmpState n) : Finset (Fin n) :=
  Finset.univ.filter fun i => state.locals i = .smpMain

/-- The counter is the number of processors which are not awaited, and nobody
has left while somebody is. -/
structure Counts {n : Nat} (bootCpu : Fin n) (state : SmpState n) :
    Prop where
  boot : state.locals bootCpu ≠ .smpMain
  counter : state.shared = BitVec.ofNat 32 (n - (awaited state).card)
  released : ∀ i, state.locals i = .left → awaited state = ∅

variable {n : Nat} {bootCpu : Fin n} {state before after : SmpState n}

theorem mem_awaited {i : Fin n} :
    i ∈ awaited state ↔ state.locals i = .smpMain := by
  simp [awaited]

/-- All but the boot processor are awaited. -/
theorem awaited_started :
    awaited (started bootCpu) = Finset.univ.erase bootCpu := by
  ext i
  rw [mem_awaited, Finset.mem_erase]
  by_cases same : i = bootCpu
  · simp [started, same]
  · simp [started, same]

/-- The counter starts with the boot processor. -/
theorem counts_started : Counts bootCpu (started bootCpu) := by
  have someCpu : 0 < n := bootCpu.pos
  constructor
  · simp [started]
  · rw [awaited_started, Finset.card_erase_of_mem (Finset.mem_univ _),
      Finset.card_univ, Fintype.card_fin]
    have one : n - (n - 1) = 1 := by omega
    rw [one]
    rfl
  · intro i leaving
    by_cases same : i = bootCpu
    · simp [started, same] at leaving
    · simp [started, same] at leaving

/-- The boot processor is not among those which increment. -/
theorem Counts.card_lt (counts : Counts bootCpu state) :
    (awaited state).card < n := by
  have proper : awaited state ⊂ Finset.univ := by
    rw [Finset.ssubset_univ_iff]
    intro all
    apply counts.boot
    rw [← mem_awaited, all]
    exact Finset.mem_univ _
  simpa using Finset.card_lt_card proper

/-- The counter shows `n` only if nobody is awaited. -/
theorem Counts.awaited_eq_empty (counts : Counts bootCpu state)
    (complete : state.shared.toNat = n) :
    awaited state = ∅ := by
  have fewer := counts.card_lt
  rw [counts.counter, BitVec.toNat_ofNat] at complete
  have residue := Nat.mod_le (n - (awaited state).card) (2 ^ 32)
  rw [← Finset.card_eq_zero]
  omega

/-! ## One step -/

/-- What one step of a processor can be. -/
theorem step_cases {i : Fin n} (step : Step (rendezvous n) before i after) :
    (before.locals i = .launch ∧ after.locals i = .polling ∧
        after.shared = before.shared) ∨
      (before.locals i = .smpMain ∧ after.locals i = .polling ∧
        after.shared = before.shared + 1) ∨
      (before.locals i = .polling ∧ before.shared.toNat ≠ n ∧
        after.locals i = .polling ∧ after.shared = before.shared) ∨
      before.locals i = .polling ∧ before.shared.toNat = n ∧
        after.locals i = .left ∧ after.shared = before.shared := by
  have runs := step.runs
  cases position : before.locals i with
  | launch =>
      simp only [position, rendezvous, Option.some.injEq, Prod.mk.injEq] at runs
      exact Or.inl ⟨rfl, runs.1.symm, runs.2.symm⟩
  | smpMain =>
      simp only [position, rendezvous, Option.some.injEq, Prod.mk.injEq] at runs
      exact Or.inr (Or.inl ⟨rfl, runs.1.symm, runs.2.symm⟩)
  | polling =>
      by_cases complete : before.shared.toNat = n
      · simp only [position, rendezvous, complete, ne_eq, not_true_eq_false,
          if_false, Option.some.injEq, Prod.mk.injEq] at runs
        exact Or.inr
          (Or.inr (Or.inr ⟨rfl, complete, runs.1.symm, runs.2.symm⟩))
      · simp only [position, rendezvous, complete, ne_eq, not_false_eq_true,
          if_true, Option.some.injEq, Prod.mk.injEq] at runs
        exact Or.inr
          (Or.inr (Or.inl ⟨rfl, complete, runs.1.symm, runs.2.symm⟩))
  | left => simp [position, rendezvous] at runs

/-- A processor is awaited no longer once it has taken a step. -/
theorem awaited_step {i : Fin n}
    (step : Step (rendezvous n) before i after) :
    awaited after = (awaited before).erase i := by
  have moved : after.locals i ≠ .smpMain := by
    rcases step_cases step with
      ⟨-, next, -⟩ | ⟨-, next, -⟩ | ⟨-, -, next, -⟩ | ⟨-, -, next, -⟩ <;>
      simp [next]
  ext j
  rw [Finset.mem_erase, mem_awaited, mem_awaited]
  by_cases same : j = i
  · subst j
    exact ⟨fun waiting => absurd waiting moved, fun both => absurd rfl both.1⟩
  · rw [step.locals_of_ne same]
    exact ⟨fun waiting => ⟨same, waiting⟩, fun both => both.2⟩

theorem awaited_step_of_ne {i : Fin n}
    (step : Step (rendezvous n) before i after)
    (notAwaited : before.locals i ≠ .smpMain) :
    awaited after = awaited before := by
  rw [awaited_step step, Finset.erase_eq_of_notMem]
  exact fun member => notAwaited (mem_awaited.1 member)

/-- The counter moves with the processors that arrive. -/
theorem counter_step {i : Fin n} (counts : Counts bootCpu before)
    (step : Step (rendezvous n) before i after) :
    after.shared = BitVec.ofNat 32 (n - (awaited after).card) := by
  rcases step_cases step with
    ⟨position, -, same⟩ | ⟨position, -, incremented⟩ |
      ⟨position, -, -, same⟩ | ⟨position, -, -, same⟩
  · rw [same, awaited_step_of_ne step (by simp [position])]
    exact counts.counter
  · have member : i ∈ awaited before := mem_awaited.2 position
    have someone : 0 < (awaited before).card := Finset.card_pos.2 ⟨i, member⟩
    have fewer := counts.card_lt
    have oneMore :
        n - ((awaited before).card - 1) = n - (awaited before).card + 1 := by
      omega
    rw [incremented, counts.counter, awaited_step step,
      Finset.card_erase_of_mem member, oneMore, BitVec.ofNat_add]
    rfl
  · rw [same, awaited_step_of_ne step (by simp [position])]
    exact counts.counter
  · rw [same, awaited_step_of_ne step (by simp [position])]
    exact counts.counter

/-- A step keeps the count. -/
theorem counts_step {i : Fin n} (counts : Counts bootCpu before)
    (step : Step (rendezvous n) before i after) :
    Counts bootCpu after where
  boot := by
    intro waiting
    have member := mem_awaited.2 waiting
    rw [awaited_step step, Finset.mem_erase] at member
    exact counts.boot (mem_awaited.1 member.2)
  counter := counter_step counts step
  released := by
    intro j leaving
    -- either `j` had left before, or it leaves with the counter at `n`
    have nobody : awaited before = ∅ := by
      by_cases same : j = i
      · subst j
        rcases step_cases step with
          ⟨-, next, -⟩ | ⟨-, next, -⟩ | ⟨-, -, next, -⟩ | ⟨-, complete, -, -⟩
        · simp [next] at leaving
        · simp [next] at leaving
        · simp [next] at leaving
        · exact counts.awaited_eq_empty complete
      · rw [step.locals_of_ne same] at leaving
        exact counts.released j leaving
    rw [awaited_step step, nobody, Finset.erase_empty]

/-- And so does every run. -/
theorem counts_of_run {trace : List (Fin n)}
    (run : SmpRun bootCpu trace state) : Counts bootCpu state :=
  run.invariant (Counts bootCpu) counts_started
    fun _ _ _ counts step => counts_step counts step

/-! ## A complete counter -/

/-- Once complete, the counter stays and a polling processor leaves. -/
theorem complete_step {i : Fin n} (counts : Counts bootCpu before)
    (complete : before.shared.toNat = n)
    (step : Step (rendezvous n) before i after) :
    after.shared.toNat = n ∧
      (before.locals i = .polling → after.locals i = .left) := by
  have nobody := counts.awaited_eq_empty complete
  rcases step_cases step with
    ⟨position, -, same⟩ | ⟨position, -, -⟩ |
      ⟨-, incomplete, -, -⟩ | ⟨-, -, next, same⟩
  · rw [same, position]
    exact ⟨complete, nofun⟩
  · have member := mem_awaited.2 position
    rw [nobody] at member
    exact absurd member (Finset.notMem_empty i)
  · exact absurd complete incomplete
  · rw [same]
    exact ⟨complete, fun _ => next⟩

/-- Once complete, the rendezvous stays complete. -/
theorem complete_of_run {trace : List (Fin n)} {later : SmpState n}
    (counts : Counts bootCpu state) (complete : state.shared.toNat = n)
    (run : Execution (rendezvous n) state trace later) :
    Counts bootCpu later ∧ later.shared.toNat = n :=
  run.invariant (fun reached => Counts bootCpu reached ∧ reached.shared.toNat = n)
    ⟨counts, complete⟩
    fun _ _ _ both step =>
      ⟨counts_step both.1 step, (complete_step both.1 both.2 step).1⟩

/-- A processor which has not left can take a step. -/
theorem exists_step {i : Fin n} (here : state.locals i ≠ .left) :
    ∃ after, Step (rendezvous n) state i after := by
  cases position : state.locals i with
  | launch => exact ⟨_, .polling, state.shared, by rw [position]; rfl, rfl⟩
  | smpMain =>
      exact ⟨_, .polling, state.shared + 1, by rw [position]; rfl, rfl⟩
  | polling =>
      by_cases incomplete : state.shared.toNat ≠ n
      · refine ⟨_, .polling, state.shared, ?_, rfl⟩
        rw [position, rendezvous, if_pos incomplete]
      · refine ⟨_, .left, state.shared, ?_, rfl⟩
        rw [position, rendezvous, if_neg incomplete]
  | left => exact absurd position here

/-! ## The rendezvous is a barrier -/

/-- What a barrier must satisfy in a state. -/
structure Barrier (state : SmpState n) : Prop where
  /-- Nobody leaves before all have incremented. -/
  holds :
    ∀ i, state.locals i = .left → ∀ j, state.locals j ≠ .smpMain
  bounded : state.shared.toNat ≤ n
  /-- Whoever has not left can go on. -/
  goesOn :
    ∀ i, state.locals i ≠ .left →
      ∃ after, Step (rendezvous n) state i after
  /-- A complete counter stays, and releases whoever polls later: there is a
  step for it, and each of its steps leads out. -/
  complete :
    state.shared.toNat = n →
      ∀ trace later,
        Execution (rendezvous n) state trace later →
          later.shared.toNat = n ∧
            ∀ i, later.locals i = .polling →
              (∃ after, Step (rendezvous n) later i after) ∧
                ∀ after,
                  Step (rendezvous n) later i after →
                    after.locals i = .left

/-- However the processors interleave, no state they reach breaks the
barrier. -/
theorem rendezvous_is_barrier
    {n : Nat} {bootCpu : Fin n} {trace : List (Fin n)} {state : SmpState n}
    (run : SmpRun bootCpu trace state) : Barrier state where
  holds := by
    intro i leaving j waiting
    have member := mem_awaited.2 waiting
    rw [(counts_of_run run).released i leaving] at member
    exact absurd member (Finset.notMem_empty j)
  bounded := by
    rw [(counts_of_run run).counter, BitVec.toNat_ofNat]
    exact (Nat.mod_le _ _).trans (Nat.sub_le _ _)
  goesOn := fun _ => exists_step
  complete := by
    intro complete trace later continued
    have still := complete_of_run (counts_of_run run) complete continued
    refine ⟨still.2, ?_⟩
    intro i polls
    have here : later.locals i ≠ .left := by
      rw [polls]
      decide
    exact
      ⟨exists_step here,
        fun _ step => (complete_step still.1 still.2 step).2 polls⟩

/-- After its increment the last of three processors finds the counter at 3. -/
theorem rendezvous_is_barrier_three :
    ∃ state : SmpState 3,
      SmpRun 0 [0, 1, 2] state ∧ state.shared = 3 ∧ Barrier state := by
  have idle : SmpRun (0 : Fin 3) [] (started 0) := .start
  have run := ((idle.alone 0 1 rfl).alone 1 1 rfl).alone 2 1 rfl
  exact ⟨_, run, rfl, rendezvous_is_barrier run⟩

end NopOS.Smp.Rendezvous
