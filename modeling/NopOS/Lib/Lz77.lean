import NopOS.Lib.IndexedBuffer

/-!
# Texts made of literals and back references

A token adds literal items to a text, or repeats items which stand a distance
back in it.  A reference may be longer than its distance: it then repeats
items it has itself added.  Expanding tokens from left to right gives a text,
and a loop which copies item after item in memory expands a reference.
-/

namespace NopOS.Lib.Lz77

open NopOS.Lib.IndexedBuffer

variable {Item : Type*}

/-- Items as they are, or a reference to items behind. -/
inductive Token (Item : Type*) where
  | literals (items : List Item)
  | reference (distance count : Nat)
deriving DecidableEq, Repr

/-- The text with its item at a distance repeated behind it. -/
def repeatOne (distance : Nat) (text : List Item) : List Item :=
  text ++ (text.drop (text.length - distance)).take 1

/-- Repeat the item at a distance a number of times, each time from the longer
text. -/
def copyBack (distance : Nat) : Nat → List Item → List Item
  | 0, text => text
  | count + 1, text => copyBack distance count (repeatOne distance text)

/-- What a token adds to a text. -/
def expandToken (text : List Item) : Token Item → List Item
  | .literals items => text ++ items
  | .reference distance count => copyBack distance count text

/-- The text which tokens stand for, behind a given one. -/
def expand (text : List Item) (tokens : List (Token Item)) : List Item :=
  tokens.foldl expandToken text

/-- A token adds at least one item, and refers to a place in the text. -/
def Fits (text : List Item) : Token Item → Prop
  | .literals items => items ≠ []
  | .reference distance count =>
      0 < distance ∧ distance ≤ text.length ∧ 0 < count

@[simp]
theorem expand_nil (text : List Item) : expand text [] = text :=
  rfl

@[simp]
theorem expand_cons
    (text : List Item) (token : Token Item) (tokens : List (Token Item)) :
    expand text (token :: tokens) = expand (expandToken text token) tokens :=
  rfl

/-- Tokens expand one after another. -/
theorem expand_append
    (text : List Item) (first second : List (Token Item)) :
    expand text (first ++ second) = expand (expand text first) second :=
  List.foldl_append

section Lengths

variable {text : List Item} {distance : Nat}

theorem length_repeatOne
    (positive : 0 < distance)
    (inside : distance ≤ text.length) :
    (repeatOne distance text).length = text.length + 1 := by
  rw [repeatOne, List.length_append, List.length_take, List.length_drop]
  omega

/-- A reference adds as many items as it counts. -/
theorem length_copyBack
    (positive : 0 < distance)
    (inside : distance ≤ text.length)
    (count : Nat) :
    (copyBack distance count text).length = text.length + count := by
  induction count generalizing text with
  | zero => rfl
  | succ count induction =>
      have longer := length_repeatOne positive inside
      rw [copyBack, induction (by omega), longer]
      omega

/-- Fitting tokens lengthen a text. -/
theorem length_lt_expandToken
    {token : Token Item}
    (fits : Fits text token) :
    text.length < (expandToken text token).length := by
  cases token with
  | literals items =>
      have some := List.length_pos_of_ne_nil fits
      rw [expandToken, List.length_append]
      omega
  | reference distance count =>
      rcases fits with ⟨positive, inside, several⟩
      rw [expandToken, length_copyBack positive inside]
      omega

end Lengths

/-- Every token of the list fits the text which those before it have made. -/
def AllFit (text : List Item) : List (Token Item) → Prop
  | [] => True
  | token :: tokens =>
      Fits text token ∧ AllFit (expandToken text token) tokens

theorem allFit_append
    {text : List Item} {first second : List (Token Item)} :
    AllFit text (first ++ second) ↔
      AllFit text first ∧ AllFit (expand text first) second := by
  induction first generalizing text with
  | nil => simp [AllFit]
  | cons token tokens induction =>
      rw [List.cons_append, AllFit, AllFit, induction, expand_cons, and_assoc]

theorem length_le_expand
    {text : List Item} {tokens : List (Token Item)}
    (fit : AllFit text tokens) :
    text.length ≤ (expand text tokens).length := by
  induction tokens generalizing text with
  | nil => exact Nat.le_refl _
  | cons token tokens induction =>
      rcases fit with ⟨fits, later⟩
      have longer := length_lt_expandToken fits
      have rest := induction later
      rw [expand_cons]
      omega

/-! ## References into a prefix of the data -/

section Prefixes

variable {data : Nat → Item} {position distance : Nat}

theorem slice_succ_last (buffer : Nat → Item) (start count : Nat) :
    slice buffer start (count + 1) =
      slice buffer start count ++ [buffer (start + count)] := by
  rw [slice_add]
  rfl

/-- One item of a prefix, as a list. -/
theorem take_drop_slice
    {start count place : Nat}
    (inside : place < count) :
    ((slice data start count).drop place).take 1 = [data (start + place)] := by
  have parts : count = place + (1 + (count - place - 1)) := by omega
  rw [parts, slice_add, slice_add, List.drop_left' (length_slice _ _ _)]
  rfl

theorem repeatOne_slice
    (positive : 0 < distance)
    (inside : distance ≤ position)
    (same : data position = data (position - distance)) :
    repeatOne distance (slice data 0 position) =
      slice data 0 (position + 1) := by
  have place : position - distance < position := by omega
  rw [repeatOne, length_slice, take_drop_slice place, slice_succ_last,
    Nat.zero_add, Nat.zero_add, same]

/--
A reference whose items equal those the distance before them extends a prefix
of the data.
-/
theorem copyBack_slice
    (positive : 0 < distance)
    (inside : distance ≤ position)
    {count : Nat}
    (same :
      ∀ i < count, data (position + i) = data (position + i - distance)) :
    copyBack distance count (slice data 0 position) =
      slice data 0 (position + count) := by
  induction count generalizing position with
  | zero => rfl
  | succ count induction =>
      have first := same 0 (Nat.succ_pos count)
      have later :
          ∀ i < count,
            data (position + 1 + i) = data (position + 1 + i - distance) := by
        intro i low
        have next := same (i + 1) (by omega)
        rwa [← Nat.add_assoc, Nat.add_right_comm] at next
      rw [copyBack, repeatOne_slice positive inside first,
        induction (by omega) later]
      congr 1
      omega

end Prefixes

/-! ## Copy loops in memory -/

section Loops

variable {memory : Nat → Item} {source target count : Nat}

/-- `*target++ = *source++`, `count` times. -/
def copyForward (memory : Nat → Item) (source target : Nat) :
    Nat → Nat → Item
  | 0 => memory
  | count + 1 =>
      copyForward (Function.update memory target (memory source))
        (source + 1) (target + 1) count

/-- `*target++ = item`, `count` times. -/
def fill (memory : Nat → Item) (target : Nat) (item : Item) :
    Nat → Nat → Item
  | 0 => memory
  | count + 1 =>
      fill (Function.update memory target item) (target + 1) item count

/-- Two items are read before they are written, `count` times. -/
def copyPairs (memory : Nat → Item) (source target : Nat) :
    Nat → Nat → Item
  | 0 => memory
  | count + 1 =>
      copyPairs
        (Function.update (Function.update memory target (memory source))
          (target + 1) (memory (source + 1)))
        (source + 2) (target + 2) count

theorem copyForward_outside
    {place : Nat}
    (outside : place < target ∨ target + count ≤ place) :
    copyForward memory source target count place = memory place := by
  induction count generalizing memory source target with
  | zero => rfl
  | succ count induction =>
      rw [copyForward, induction (by omega),
        Function.update_of_ne (by omega)]

/-- A copy is made in two parts. -/
theorem copyForward_add
    (memory : Nat → Item) (source target first second : Nat) :
    copyForward memory source target (first + second) =
      copyForward (copyForward memory source target first)
        (source + first) (target + first) second := by
  induction first generalizing memory source target with
  | zero => rw [Nat.zero_add, copyForward, Nat.add_zero, Nat.add_zero]
  | succ first induction =>
      rw [Nat.succ_add, copyForward, copyForward, induction]
      congr 1 <;> omega

/-- The items copied are those of a range which the loop does not write. -/
theorem slice_copyForward_of_apart
    (apart : source + count ≤ target ∨ target + count ≤ source) :
    slice (copyForward memory source target count) target count =
      slice memory source count := by
  induction count generalizing memory source target with
  | zero => rfl
  | succ count induction =>
      have rest :
          slice (Function.update memory target (memory source))
              (source + 1) count =
            slice memory (source + 1) count := by
        apply slice_congr
        intro i low
        exact Function.update_of_ne (by omega) _ _
      rw [copyForward, slice, slice, copyForward_outside (by omega),
        Function.update_self, induction (by omega), rest]

/-- The loop expands a reference in the text which ends at its target. -/
theorem slice_copyForward
    {start : Nat}
    (memory : Nat → Item)
    (count : Nat)
    (behind : start ≤ source)
    (below : source < target) :
    slice (copyForward memory source target count) start
        (target - start + count) =
      copyBack (target - source) count
        (slice memory start (target - start)) := by
  induction count generalizing memory source target with
  | zero => rfl
  | succ count induction =>
      have place : target - start - (target - source) = source - start := by
        omega
      have inside : source - start < target - start := by omega
      have moved : start + (source - start) = source := by omega
      have ends : start + (target - start) = target := by omega
      have longer : target + 1 - start = target - start + 1 := by omega
      have counted :
          target - start + (count + 1) = target + 1 - start + count := by
        omega
      have same : target + 1 - (source + 1) = target - source := by omega
      have untouched :
          slice (Function.update memory target (memory source)) start
              (target - start) =
            slice memory start (target - start) := by
        apply slice_congr
        intro i low
        exact Function.update_of_ne (by omega) _ _
      rw [copyForward, counted, induction _ (by omega) (by omega), same,
        longer, slice_succ_last, untouched, ends, Function.update_self,
        copyBack, repeatOne, length_slice, place, take_drop_slice inside,
        moved]

theorem fill_add
    (memory : Nat → Item) (target : Nat) (item : Item) (first second : Nat) :
    fill memory target item (first + second) =
      fill (fill memory target item first) (target + first) item second := by
  induction first generalizing memory target with
  | zero => rw [Nat.zero_add, fill, Nat.add_zero]
  | succ first induction =>
      rw [Nat.succ_add, fill, fill, induction]
      congr 1
      omega

/-- Copying from the item before the target repeats that item. -/
theorem copyForward_one
    (memory : Nat → Item) (target count : Nat) :
    copyForward memory target (target + 1) count =
      fill memory (target + 1) (memory target) count := by
  induction count generalizing memory target with
  | zero => rfl
  | succ count induction =>
      rw [copyForward, fill, induction, Function.update_self]

/-- Pairs may be copied where source and target are two or more apart. -/
theorem copyPairs_eq_copyForward
    (apart : source + 2 ≤ target) :
    copyPairs memory source target count =
      copyForward memory source target (2 * count) := by
  induction count generalizing memory source target with
  | zero => rfl
  | succ count induction =>
      have twice : 2 * (count + 1) = 2 * count + 1 + 1 := by omega
      have second :
          Function.update memory target (memory source) (source + 1) =
            memory (source + 1) := by
        exact Function.update_of_ne (by omega) _ _
      rw [copyPairs, induction (by omega), twice, copyForward, copyForward,
        second]

end Loops

end NopOS.Lib.Lz77
