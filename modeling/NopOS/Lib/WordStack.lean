import Mathlib.Tactic

/-!
# A descending stack of quad words in memory

The pointer is decremented before a word is stored.  A stack holds a list of
words if they lie from its pointer upwards, the top first.  Addresses wrap, so
the words are kept apart by their number alone: fewer than `2 ^ 61` of them
have different addresses wherever the stack lies.
-/

namespace NopOS.Lib.WordStack

/-- What one push moves. -/
abbrev Word := BitVec 64

/-- The stack pointer, and memory by the addresses of its words. -/
structure Stack where
  pointer : Word
  memory : Word → Word

namespace Stack

/-- The word `i` places below the top. -/
def word (stack : Stack) (i : Nat) : Word :=
  stack.memory (stack.pointer + BitVec.ofNat 64 (8 * i))

/-- Move the pointer down and store a word there. -/
def push (stack : Stack) (value : Word) : Stack where
  pointer := stack.pointer - 8
  memory := Function.update stack.memory (stack.pointer - 8) value

/-- Move the pointer up. -/
def drop (stack : Stack) : Stack where
  pointer := stack.pointer + 8
  memory := stack.memory

/-- The word at the pointer. -/
def top (stack : Stack) : Word :=
  stack.memory stack.pointer

/-- The words from the pointer upwards are those of the list. -/
def Holds (stack : Stack) (words : List Word) : Prop :=
  ∀ i value, words[i]? = some value → stack.word i = value

theorem holds_nil (stack : Stack) : stack.Holds [] := by
  intro i value found
  cases found

theorem word_zero (stack : Stack) : stack.word 0 = stack.top := by
  rw [word, top]
  congr 1
  exact BitVec.add_zero _

theorem word_drop (stack : Stack) (i : Nat) :
    stack.drop.word i = stack.word (i + 1) := by
  have up :
      stack.pointer + 8 + BitVec.ofNat 64 (8 * i) =
        stack.pointer + BitVec.ofNat 64 (8 * (i + 1)) := by
    have eight : (8 : Word).toNat = 8 := rfl
    apply BitVec.eq_of_toNat_eq
    rw [BitVec.toNat_add, BitVec.toNat_add, BitVec.toNat_add,
      BitVec.toNat_ofNat, BitVec.toNat_ofNat, eight]
    omega
  exact congrArg stack.memory up

theorem top_push (stack : Stack) (value : Word) :
    (stack.push value).top = value :=
  Function.update_self _ _ _

/-- A push does not reach the words above it. -/
theorem word_push (stack : Stack) (value : Word) {i : Nat}
    (near : i + 1 < 2 ^ 61) :
    (stack.push value).word (i + 1) = stack.word i := by
  have up :
      stack.pointer - 8 + BitVec.ofNat 64 (8 * (i + 1)) =
        stack.pointer + BitVec.ofNat 64 (8 * i) := by
    have eight : (8 : Word).toNat = 8 := rfl
    have position := stack.pointer.isLt
    apply BitVec.eq_of_toNat_eq
    rw [BitVec.toNat_add, BitVec.toNat_add, BitVec.toNat_sub,
      BitVec.toNat_ofNat, BitVec.toNat_ofNat, eight]
    omega
  have apart :
      stack.pointer + BitVec.ofNat 64 (8 * i) ≠ stack.pointer - 8 := by
    have eight : (8 : Word).toNat = 8 := rfl
    have position := stack.pointer.isLt
    intro same
    have numbers := congrArg BitVec.toNat same
    rw [BitVec.toNat_add, BitVec.toNat_sub, BitVec.toNat_ofNat, eight] at numbers
    omega
  show
    Function.update stack.memory (stack.pointer - 8) value
        (stack.pointer - 8 + BitVec.ofNat 64 (8 * (i + 1))) = _
  rw [up, Function.update_of_ne apart]
  rfl

/-! ## What a stack holds -/

theorem Holds.push {stack : Stack} {words : List Word}
    (holds : stack.Holds words) (few : words.length < 2 ^ 60)
    (value : Word) :
    (stack.push value).Holds (value :: words) := by
  intro i other found
  cases i with
  | zero =>
      rw [word_zero, top_push]
      exact Option.some.inj found
  | succ i =>
      rw [List.getElem?_cons_succ] at found
      have inside := (List.getElem?_eq_some_iff.1 found).1
      rw [word_push stack value (by omega)]
      exact holds i other found

theorem Holds.top {stack : Stack} {value : Word} {words : List Word}
    (holds : stack.Holds (value :: words)) : stack.top = value := by
  rw [← word_zero]
  exact holds 0 value rfl

theorem Holds.drop {stack : Stack} {value : Word} {words : List Word}
    (holds : stack.Holds (value :: words)) : stack.drop.Holds words := by
  intro i other found
  rw [word_drop]
  exact holds (i + 1) other found

/-- What is held does not depend on the memory below the pointer. -/
theorem Holds.congr {stack other : Stack} {words : List Word}
    (holds : stack.Holds words)
    (same : ∀ i < words.length, other.word i = stack.word i) :
    other.Holds words := by
  intro i value found
  rw [same i (List.getElem?_eq_some_iff.1 found).1]
  exact holds i value found

end Stack

end NopOS.Lib.WordStack
