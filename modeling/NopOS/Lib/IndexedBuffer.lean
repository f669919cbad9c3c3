import Mathlib.Data.List.GetD
import Mathlib.Tactic

/-!
# Buffers addressed by an index

The part of a buffer between two indices as a list, and what storing at its
end or moving it to the front of the buffer makes of it.
-/

namespace NopOS.Lib.IndexedBuffer

variable {Item : Type*}

/-- The items from an index on. -/
def slice (buffer : Nat → Item) : Nat → Nat → List Item
  | _, 0 => []
  | start, count + 1 => buffer start :: slice buffer (start + 1) count

/-- The buffer after `count` items were moved to its front. -/
def moveToFront (buffer : Nat → Item) (source count : Nat) : Nat → Item :=
  fun index => if index < count then buffer (source + index) else buffer index

@[simp]
theorem length_slice (buffer : Nat → Item) (start count : Nat) :
    (slice buffer start count).length = count := by
  induction count generalizing start with
  | zero => rfl
  | succ count induction => rw [slice, List.length_cons, induction]

/-- A slice is cut in two. -/
theorem slice_add
    (buffer : Nat → Item) (start first second : Nat) :
    slice buffer start (first + second) =
      slice buffer start first ++ slice buffer (start + first) second := by
  induction first generalizing start with
  | zero => simp [slice]
  | succ first induction =>
      have shifted : start + 1 + first = start + (first + 1) := by omega
      rw [Nat.succ_add, slice, slice, induction, List.cons_append, shifted]

theorem slice_congr
    {buffer other : Nat → Item} {start otherStart count : Nat}
    (same : ∀ i < count, buffer (start + i) = other (otherStart + i)) :
    slice buffer start count = slice other otherStart count := by
  induction count generalizing start otherStart with
  | zero => rfl
  | succ count induction =>
      have first : buffer start = other otherStart :=
        same 0 (Nat.succ_pos _)
      have later :
          ∀ i < count, buffer (start + 1 + i) = other (otherStart + 1 + i) := by
        intro i inside
        have next := same (i + 1) (by omega)
        rwa [Nat.add_comm i, ← Nat.add_assoc, ← Nat.add_assoc] at next
      rw [slice, slice, first, induction later]

/-- An item stored behind a slice extends it. -/
theorem slice_update
    (buffer : Nat → Item) (count : Nat) (item : Item) :
    slice (Function.update buffer count item) 0 (count + 1) =
      slice buffer 0 count ++ [item] := by
  have before :
      slice (Function.update buffer count item) 0 count =
        slice buffer 0 count := by
    apply slice_congr
    intro i inside
    exact Function.update_of_ne (by omega) _ _
  rw [slice_add, before, slice, slice, Nat.zero_add, Function.update_self]

/-- The list stands in the buffer, from an index on. -/
def Holds (buffer : Nat → Item) (start : Nat) (items : List Item) : Prop :=
  slice buffer start items.length = items

section Holds

variable {buffer other : Nat → Item} {start : Nat}

theorem holds_nil : Holds buffer start [] :=
  rfl

theorem holds_cons {item : Item} {items : List Item} :
    Holds buffer start (item :: items) ↔
      buffer start = item ∧ Holds buffer (start + 1) items := by
  rw [Holds, Holds, List.length_cons, slice, List.cons.injEq]

/-- Two lists are held one behind the other. -/
theorem holds_append {first second : List Item} :
    Holds buffer start (first ++ second) ↔
      Holds buffer start first ∧
        Holds buffer (start + first.length) second := by
  induction first generalizing start with
  | nil => simp [holds_nil]
  | cons item items induction =>
      have place : start + 1 + items.length = start + (items.length + 1) := by
        omega
      rw [List.cons_append, holds_cons, holds_cons, induction,
        List.length_cons, place, and_assoc]

theorem holds_slice (count : Nat) :
    Holds buffer start (slice buffer start count) := by
  rw [Holds, length_slice]

theorem holds_congr
    {items : List Item}
    (same :
      ∀ i < items.length, buffer (start + i) = other (start + i)) :
    Holds buffer start items ↔ Holds other start items := by
  rw [Holds, Holds, slice_congr same]

/-- A buffer holds a list item by item. -/
theorem holds_iff_getElem {items : List Item} :
    Holds buffer start items ↔
      ∀ i, (inside : i < items.length) → buffer (start + i) = items[i] := by
  induction items generalizing start with
  | nil =>
      refine ⟨?_, fun _ => holds_nil⟩
      intro _ i impossible
      cases impossible
  | cons item items induction =>
      rw [holds_cons, induction]
      constructor
      · rintro ⟨first, later⟩ i inside
        cases i with
        | zero => exact first
        | succ i =>
            have next := later i (Nat.lt_of_succ_lt_succ inside)
            rwa [Nat.add_right_comm] at next
      · intro all
        refine ⟨all 0 (Nat.succ_pos _), ?_⟩
        intro i inside
        have next := all (i + 1) (Nat.succ_lt_succ inside)
        rwa [← Nat.add_assoc, Nat.add_right_comm] at next

theorem getElem_slice
    {count i : Nat}
    (inside : i < (slice buffer start count).length) :
    (slice buffer start count)[i] = buffer (start + i) :=
  (holds_iff_getElem.mp (holds_slice count) i inside).symm

end Holds

@[simp]
theorem moveToFront_same (buffer : Nat → Item) (count : Nat) :
    moveToFront buffer 0 count = buffer := by
  funext index
  rw [moveToFront, Nat.zero_add, ite_self]

/-! ## A list in front of a buffer -/

/-- The buffer of which the first items are those of the list. -/
def overlay (items : List Item) (buffer : Nat → Item) : Nat → Item :=
  fun index => items.getD index (buffer index)

section Overlay

variable (items : List Item) (buffer : Nat → Item) (item : Item)

@[simp]
theorem overlay_nil : overlay [] buffer = buffer :=
  rfl

theorem overlay_append :
    Function.update (overlay items buffer) items.length item =
      overlay (items ++ [item]) buffer := by
  funext index
  by_cases here : index = items.length
  · subst here
    rw [Function.update_self, overlay, List.getD_append_right _ _ _ _ le_rfl,
      Nat.sub_self]
    rfl
  · rw [Function.update_of_ne here, overlay, overlay]
    rcases Nat.lt_or_gt_of_ne here with inside | behind
    · rw [List.getD_append _ _ _ _ inside]
    · rw [List.getD_eq_default _ _ behind.le, List.getD_eq_default]
      rw [List.length_append, List.length_singleton]
      omega

/-- The last item of the list is replaced. -/
theorem overlay_replace (last : Item) :
    Function.update (overlay (items ++ [last]) buffer) items.length item =
      overlay (items ++ [item]) buffer := by
  rw [← overlay_append, Function.update_idem, overlay_append]

end Overlay

end NopOS.Lib.IndexedBuffer
