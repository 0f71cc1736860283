import LoopNest.Pattern.CharSet
import Std.Data.HashMap

/-!
# Tallies

An automaton is built state by state.  A tally counts the states that it has so far and the
memory that they take; building ends when that is too much.  The states are numbered in the
order in which they are added.
-/

namespace LoopNest
namespace Pattern

/-- The number of states, and the bytes that they take besides the fixed size of a state. -/
structure Tally where
  states : Nat
  extra : Nat
  deriving DecidableEq, Repr

namespace Tally

def empty : Tally :=
  ⟨0, 0⟩

/-- The bytes that a state takes. -/
def stateBytes : Nat := 32

/-- The bytes that a state takes for each range of bytes that it has a choice of. -/
def choiceBytes : Nat := 8

/-- The bytes that a fork takes for each state where it leads to. -/
def branchBytes : Nat := 4

/-- How many bytes the states of an automaton may take. -/
def greatestBytes : Nat := 10485760

def bytes (t : Tally) : Nat :=
  stateBytes * t.states + t.extra

/-- The tally with more states, unless they are too many. -/
def grow (t : Tally) (states extra : Nat) : Option Tally :=
  let grown : Tally := ⟨t.states + states, t.extra + extra⟩
  if grown.bytes ≤ greatestBytes then some grown else none

/-- The tally after a state has been led to another one; only a fork has to keep that. -/
def link (t : Tally) (fork : Bool) : Option Tally :=
  if fork then t.grow 0 branchBytes else some t

end Tally

/-!
## Slots

States that lead on alike are shared, as far as they are remembered.  Every kind of state has
one slot, which is told by a number that is computed from it; a state of another kind that has
the same slot makes the first one forgotten.
-/

/-- Works one more number into a number of 64 bits. -/
def mix (h : UInt64) (n : Nat) : UInt64 :=
  (h ^^^ n.toUInt64) * 1099511628211

/-- The number of a row of numbers. -/
def mixAll (numbers : List Nat) : UInt64 :=
  numbers.foldl mix 14695981039346656037

/-- A range of bytes and the state where it leads to. -/
structure Transition where
  range : Range
  target : Nat
  deriving DecidableEq, Repr

/-- A tally, and the states that are remembered, each as its transitions and its number. -/
structure Layout where
  tally : Tally
  slots : Std.HashMap UInt64 (List Transition × Nat)

namespace Layout

/-- A layout in which nothing is remembered. -/
def start (t : Tally) : Layout :=
  ⟨t, ∅⟩

/-- The number of the state with the given transitions; it is added with `extra` bytes unless
it is remembered in its slot. -/
def place (l : Layout) (slot : UInt64) (extra : Nat) (key : List Transition) :
    Option (Nat × Layout) :=
  match l.slots[slot]? with
  | some (known, number) =>
      if known = key then some (number, l) else add l
  | none => add l
where
  /-- Adds the state, and remembers it in its slot. -/
  add (l : Layout) : Option (Nat × Layout) :=
    (l.tally.grow 1 extra).map fun t =>
      (l.tally.states, ⟨t, l.slots.insert slot (key, l.tally.states)⟩)

/-!
## Sets that are read forward
-/

/-- The number of slots for states that are read forward. -/
def forwardSlots : UInt64 := 10000

def placeChoice (l : Layout) (key : List Transition) : Option (Nat × Layout) :=
  let numbers := key.flatMap fun t => [t.range.low, t.range.high, t.target]
  l.place (mixAll numbers % forwardSlots) (Tally.choiceBytes * key.length) key

mutual

/-- The state that reads a tree of byte forms and leads to a target. -/
def placeTree (target : Nat) : ByteTree -> Layout -> Option (Nat × Layout)
  | .leaf, l => some (target, l)
  | .node ranges behind, l =>
      match placeTrees target behind l with
      | none => none
      | some (numbers, l) => l.placeChoice (List.zipWith Transition.mk ranges numbers)

/-- The states that read some trees of byte forms and lead to a target. -/
def placeTrees (target : Nat) : List ByteTree -> Layout -> Option (List Nat × Layout)
  | [], l => some ([], l)
  | tree :: trees, l =>
      match placeTree target tree l with
      | none => none
      | some (number, l) =>
          match placeTrees target trees l with
          | none => none
          | some (numbers, l) => some (number :: numbers, l)

end

/-!
## Sets that are read backward
-/

/-- The number of slots for states that are read backward. -/
def backwardSlots : UInt64 := 1000

/-- The state that reads a byte form from its end and leads to a target.  The first byte of
the form is read last. -/
def placeForm : (target : Nat) -> ByteForm -> Layout -> Option (Nat × Layout)
  | target, [], l => some (target, l)
  | target, r :: form, l =>
      match l.place (mixAll [target, r.low, r.high] % backwardSlots) 0 [⟨r, target⟩] with
      | none => none
      | some (number, l) => placeForm number form l

def placeForms (target : Nat) : List ByteForm -> Layout -> Option Layout
  | [], l => some l
  | form :: forms, l =>
      match placeForm target form l with
      | none => none
      | some (_, l) =>
          match l.tally.link true with
          | none => none
          | some t => placeForms target forms { l with tally := t }

end Layout

namespace Tally

/-- The tally with the states that read the byte forms of a tree. -/
def growForward (t : Tally) (tree : ByteTree) : Option Tally :=
  match t.grow 1 0 with
  | none => none
  | some grown =>
      (Layout.placeTree t.states tree (.start grown)).map fun placed => placed.2.tally

/-- The tally with the states that read byte forms from their end, a fork in front of them
and the state behind them. -/
def growBackward (t : Tally) (forms : List ByteForm) : Option Tally :=
  match t.grow 2 0 with
  | none => none
  | some grown =>
      (Layout.placeForms (t.states + 1) forms (.start grown)).map Layout.tally

end Tally
end Pattern
end LoopNest
