import NopOS.Lib.ByteRange
import NopOS.Lib.IndexedBuffer

/-!
# A text with a cursor

The items before the cursor are kept nearest first, so that every operation at
the cursor is local.  A buffer represents the text if it holds the items in
order and a terminator behind them.
-/

namespace NopOS.Lib.TextCursor

open NopOS.Lib.ByteRange
open NopOS.Lib.IndexedBuffer

/-- A text with a position: the items behind it, nearest first, and those ahead.
-/
structure Cursor (Item : Type) where
  behind : List Item
  ahead : List Item
deriving DecidableEq, Repr

variable {Item : Type}

namespace Cursor

/-- No text. -/
def empty : Cursor Item where
  behind := []
  ahead := []

/-- The whole text. -/
def text (cursor : Cursor Item) : List Item :=
  cursor.behind.reverse ++ cursor.ahead

/-- An item goes in behind the cursor. -/
def insert (item : Item) (cursor : Cursor Item) : Cursor Item where
  behind := item :: cursor.behind
  ahead := cursor.ahead

/-- The next item goes away. -/
def deleteAhead (cursor : Cursor Item) : Cursor Item where
  behind := cursor.behind
  ahead := cursor.ahead.tail

/-- The last item goes away. -/
def deleteBehind (cursor : Cursor Item) : Cursor Item where
  behind := cursor.behind.tail
  ahead := cursor.ahead

/-- One item back, unless the cursor is at the start. -/
def moveBack : Cursor Item → Cursor Item
  | ⟨item :: behind, ahead⟩ => ⟨behind, item :: ahead⟩
  | cursor => cursor

/-- One item ahead, unless the cursor is at the end. -/
def moveForward : Cursor Item → Cursor Item
  | ⟨behind, item :: ahead⟩ => ⟨item :: behind, ahead⟩
  | cursor => cursor

/-- The cursor in front of the text. -/
def moveToStart (cursor : Cursor Item) : Cursor Item where
  behind := []
  ahead := cursor.text

/-- The cursor behind the text. -/
def moveToEnd (cursor : Cursor Item) : Cursor Item where
  behind := cursor.text.reverse
  ahead := []

/-- The items beside the cursor change places, and the cursor moves on. -/
def swap : Cursor Item → Cursor Item
  | ⟨first :: behind, [second]⟩ => ⟨second :: behind, [first]⟩
  | ⟨first :: behind, second :: ahead⟩ => ⟨first :: second :: behind, ahead⟩
  | cursor => cursor

/-- All that is ahead goes away. -/
def cutAhead (cursor : Cursor Item) : Cursor Item where
  behind := cursor.behind
  ahead := []

/-- Blanks before the cursor go, and then the word before them. -/
def deleteWord (blank : Item → Bool) (cursor : Cursor Item) :
    Cursor Item where
  behind := (cursor.behind.dropWhile blank).dropWhile fun item => !blank item
  ahead := cursor.ahead

section Texts

variable {cursor : Cursor Item} {item : Item}

@[simp]
theorem length_text :
    cursor.text.length = cursor.behind.length + cursor.ahead.length := by
  rw [text, List.length_append, List.length_reverse]

@[simp]
theorem text_moveBack : cursor.moveBack.text = cursor.text := by
  rcases cursor with ⟨- | ⟨item, behind⟩, ahead⟩
  · rfl
  · simp [moveBack, text]

@[simp]
theorem text_moveForward : cursor.moveForward.text = cursor.text := by
  rcases cursor with ⟨behind, - | ⟨item, ahead⟩⟩
  · rfl
  · simp [moveForward, text]

@[simp]
theorem text_moveToStart : cursor.moveToStart.text = cursor.text :=
  rfl

@[simp]
theorem text_moveToEnd : cursor.moveToEnd.text = cursor.text := by
  simp [moveToEnd, text]

theorem length_swap : cursor.swap.text.length = cursor.text.length := by
  rcases cursor with ⟨- | ⟨first, behind⟩, - | ⟨second, - | ⟨third, ahead⟩⟩⟩
  · rfl
  · rfl
  · rfl
  · rfl
  · simp [swap]
  · simp [swap]
    omega

theorem length_deleteWord (blank : Item → Bool) :
    (cursor.deleteWord blank).text.length ≤ cursor.text.length := by
  have word :=
    ((cursor.behind.dropWhile blank).dropWhile_suffix
      fun item => !blank item).length_le
  have blanks := (cursor.behind.dropWhile_suffix blank).length_le
  rw [length_text, length_text, deleteWord]
  simp only
  omega

end Texts

end Cursor

/-! ## Buffers -/

section Buffers

variable {buffer : Nat → Item} {start target source count : Nat}
  {items : List Item}

/-- The buffer after `count` items were copied from a source to a target. -/
def moved (buffer : Nat → Item) (target source count : Nat) : Nat → Item :=
  overwrite buffer target count fun i => buffer (source + i)

theorem holds_moved
    (target : Nat)
    (held : Holds buffer source items) :
    Holds (moved buffer target source items.length) target items := by
  have copied :
      slice (moved buffer target source items.length) target items.length =
        slice buffer source items.length := by
    apply slice_congr
    intro i inside
    exact overwrite_inside inside
  rw [Holds, copied]
  exact held

theorem holds_moved_of_apart
    (held : Holds buffer start items)
    (apart : start + items.length ≤ target ∨ target + count ≤ start) :
    Holds (moved buffer target source count) start items := by
  refine (holds_congr ?_).mp held
  intro i inside
  exact (overwrite_outside (by omega)).symm

theorem holds_update_of_apart
    {place : Nat} {item : Item}
    (held : Holds buffer start items)
    (apart : place < start ∨ start + items.length ≤ place) :
    Holds (Function.update buffer place item) start items := by
  refine (holds_congr ?_).mp held
  intro i inside
  exact (Function.update_of_ne (by omega) _ _).symm

theorem holds_update_self (buffer : Nat → Item) (place : Nat) (item : Item) :
    Holds (Function.update buffer place item) place [item] := by
  rw [holds_cons]
  exact ⟨Function.update_self place item buffer, holds_nil⟩

end Buffers

end NopOS.Lib.TextCursor
