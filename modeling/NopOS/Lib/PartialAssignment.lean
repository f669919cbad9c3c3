import Mathlib.Tactic

/-!
# Assignments some of which are skipped

A list of assignments to a store, in each of which the value may be missing:
such an assignment leaves the store as it is.  With distinct keys a key ends
with its own value, or with what it held before.
-/

namespace NopOS.Lib.PartialAssignment

variable {Key Value : Type*} [DecidableEq Key]

/-- One assignment; without a value it is skipped. -/
def assign (store : Key → Value) (write : Key × Option Value) : Key → Value :=
  match write.2 with
  | none => store
  | some value => Function.update store write.1 value

/-- Writes in their order. -/
def assignAll (store : Key → Value) (writes : List (Key × Option Value)) :
    Key → Value :=
  writes.foldl assign store

theorem assign_self (store : Key → Value) (key : Key) (value : Option Value) :
    assign store (key, value) key = value.getD (store key) := by
  cases value with
  | none => rfl
  | some value => exact Function.update_self key value store

theorem assign_of_ne
    {store : Key → Value} {write : Key × Option Value} {key : Key}
    (different : key ≠ write.1) :
    assign store write key = store key := by
  rcases write with ⟨written, value⟩
  cases value with
  | none => rfl
  | some value => exact Function.update_of_ne different value store

/-- A key which is not listed keeps its value. -/
theorem assignAll_of_not_mem
    {store : Key → Value} {writes : List (Key × Option Value)} {key : Key}
    (notListed : key ∉ writes.map Prod.fst) :
    assignAll store writes key = store key := by
  induction writes generalizing store with
  | nil => rfl
  | cons write writes induction =>
      rw [List.map_cons, List.mem_cons, not_or] at notListed
      calc
        assignAll store (write :: writes) key
            = assign store write key := induction notListed.2
        _ = store key := assign_of_ne notListed.1

/-- A listed key has the value of its assignment, if that was not skipped. -/
theorem assignAll_of_mem
    {store : Key → Value} {writes : List (Key × Option Value)}
    {key : Key} {value : Option Value}
    (distinct : (writes.map Prod.fst).Nodup)
    (listed : (key, value) ∈ writes) :
    assignAll store writes key = value.getD (store key) := by
  induction writes generalizing store with
  | nil => cases listed
  | cons write writes induction =>
      rw [List.map_cons, List.nodup_cons] at distinct
      rcases List.mem_cons.1 listed with rfl | later
      · calc
          assignAll store ((key, value) :: writes) key
              = assign store (key, value) key :=
            assignAll_of_not_mem distinct.1
          _ = value.getD (store key) := assign_self store key value
      · have different : key ≠ write.1 := by
          rintro rfl
          exact distinct.1 (List.mem_map.2 ⟨_, later, rfl⟩)
        calc
          assignAll store (write :: writes) key
              = value.getD (assign store write key) :=
            induction distinct.2 later
          _ = value.getD (store key) := by rw [assign_of_ne different]

end NopOS.Lib.PartialAssignment
