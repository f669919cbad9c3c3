import Mathlib.Tactic

/-!
# Scans over records of variable length

A scan reads a record at an offset, moves on by the stride the record states,
and stops at a limit.  `scan` does so with a bounded number of steps.  `Scans`
is its result without the bound; a scan which has a result never stands still,
so a bound above the limit is always enough.
-/

namespace NopOS.Lib.RecordScan

variable {Record : Type*}
    (read : Nat → Record) (stride : Record → Nat) (limit : Nat)

/-- The records from an offset to the limit, unless the turns are not enough. -/
def scan : Nat → Nat → Option (List Record)
  | 0, _ => none
  | fuel + 1, offset =>
      if offset < limit then
        (scan fuel (offset + stride (read offset))).map (read offset :: ·)
      else some []

/-- The records met from one offset to another, all below the limit. -/
inductive Chain : Nat → List Record → Nat → Prop where
  | nil {offset : Nat} : Chain offset [] offset
  | cons
      {offset final : Nat} {records : List Record}
      (inside : offset < limit)
      (later : Chain (offset + stride (read offset)) records final) :
      Chain offset (read offset :: records) final

/-- The records met up to the limit. -/
def Scans (offset : Nat) (records : List Record) : Prop :=
  ∃ final, Chain read stride limit offset records final ∧ limit ≤ final

variable {read stride limit}

theorem scans_cons_iff
    {offset : Nat} {records : List Record} (inside : offset < limit) :
    Scans read stride limit offset records ↔
      ∃ later,
        records = read offset :: later ∧
          Scans read stride limit (offset + stride (read offset)) later := by
  constructor
  · rintro ⟨final, chain, beyond⟩
    cases chain with
    | nil => omega
    | cons _ later => exact ⟨_, rfl, final, later, beyond⟩
  · rintro ⟨later, rfl, final, chain, beyond⟩
    exact ⟨final, .cons inside chain, beyond⟩

theorem scans_end_iff
    {offset : Nat} {records : List Record} (beyond : limit ≤ offset) :
    Scans read stride limit offset records ↔ records = [] := by
  constructor
  · rintro ⟨final, chain, -⟩
    cases chain with
    | nil => rfl
    | cons inside _ => omega
  · rintro rfl
    exact ⟨offset, .nil, beyond⟩

/-- A scan continues where a chain of records ends. -/
theorem Chain.scans_iff
    {offset middle : Nat} {first records : List Record}
    (chain : Chain read stride limit offset first middle) :
    Scans read stride limit offset records ↔
      ∃ later,
        records = first ++ later ∧
          Scans read stride limit middle later := by
  induction chain generalizing records with
  | nil => simp
  | cons inside _ induction =>
      rw [scans_cons_iff inside]
      constructor
      · rintro ⟨later, rfl, scans⟩
        rcases induction.1 scans with ⟨last, rfl, scansLast⟩
        exact ⟨last, rfl, scansLast⟩
      · rintro ⟨last, rfl, scansLast⟩
        exact ⟨_, rfl, induction.2 ⟨last, rfl, scansLast⟩⟩

/-- A record which does not move the scan on is met forever. -/
theorem not_scans_of_stuck
    {offset : Nat} (inside : offset < limit)
    (stuck : stride (read offset) = 0) (records : List Record) :
    ¬ Scans read stride limit offset records := by
  induction records with
  | nil =>
      intro scans
      rcases (scans_cons_iff inside).1 scans with ⟨later, same, -⟩
      simp at same
  | cons record records induction =>
      intro scans
      rcases (scans_cons_iff inside).1 scans with ⟨later, same, further⟩
      simp only [List.cons.injEq] at same
      rw [stuck, Nat.add_zero, ← same.2] at further
      exact induction further

/-- Every record of a scan moves it on. -/
theorem Scans.length_le
    {offset : Nat} {records : List Record}
    (scans : Scans read stride limit offset records) :
    records.length ≤ limit - offset := by
  induction records generalizing offset with
  | nil => exact Nat.zero_le _
  | cons record records induction =>
      by_cases inside : offset < limit
      · have moves : stride (read offset) ≠ 0 := fun stuck =>
          not_scans_of_stuck inside stuck _ scans
        rcases (scans_cons_iff inside).1 scans with ⟨later, same, further⟩
        simp only [List.cons.injEq] at same
        rw [← same.2] at further
        have shorter := induction further
        simp only [List.length_cons]
        omega
      · have none := (scans_end_iff (by omega)).1 scans
        simp at none

/-- A scan returns the records exactly if the fuel exceeds their number. -/
theorem scan_eq_some_iff
    {fuel offset : Nat} {records : List Record} :
    scan read stride limit fuel offset = some records ↔
      Scans read stride limit offset records ∧ records.length < fuel := by
  induction fuel generalizing offset records with
  | zero => simp [scan]
  | succ fuel induction =>
      rw [scan]
      by_cases inside : offset < limit
      · rw [if_pos inside, Option.map_eq_some_iff, scans_cons_iff inside]
        constructor
        · rintro ⟨later, scanned, rfl⟩
          rcases induction.1 scanned with ⟨scans, short⟩
          exact
            ⟨⟨later, rfl, scans⟩, by
              simp only [List.length_cons]
              omega⟩
        · rintro ⟨⟨later, rfl, scans⟩, short⟩
          simp only [List.length_cons] at short
          exact ⟨later, induction.2 ⟨scans, by omega⟩, rfl⟩
      · rw [if_neg inside, scans_end_iff (by omega)]
        constructor
        · intro same
          cases same
          exact ⟨rfl, Nat.succ_pos _⟩
        · rintro ⟨rfl, -⟩
          rfl

/-- With a bound above the limit the scan has its result. -/
theorem scan_eq_some_iff_scans
    {offset : Nat} {records : List Record} :
    scan read stride limit (limit + 1) offset = some records ↔
      Scans read stride limit offset records := by
  rw [scan_eq_some_iff]
  constructor
  · exact And.left
  · intro scans
    have short := scans.length_le
    exact ⟨scans, by omega⟩

end NopOS.Lib.RecordScan
