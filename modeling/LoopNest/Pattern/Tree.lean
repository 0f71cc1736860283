import LoopNest.Pattern.CharSet
import LoopNest.Pattern.Cursor

/-!
# Patterns as they are written

The tree of a pattern keeps what was written and where.  What a part of it means depends on
the flags that are set in front of it.
-/

namespace LoopNest
namespace Pattern

/-!
## Parts
-/

/-- A character as it is written.  Two hexadecimal digits can also stand for a byte. -/
structure Letter where
  char : Char
  isByte : Bool
  deriving DecidableEq, Repr

structure Shorthand where
  name : CharSet.Name
  negated : Bool
  deriving DecidableEq, Repr

/-- A property of characters that is asked for by its name. -/
structure Property where
  name : String
  hasValue : Bool
  deriving DecidableEq, Repr

inductive WordMark where
  | boundary
  | noBoundary
  | start
  | stop
  | startHalf
  | stopHalf
  deriving DecidableEq, Repr

/-- A condition on a place in a text. -/
inductive Anchor where
  | textStart
  | textEnd
  | lineStart
  | lineEnd
  | word (mark : WordMark)
  deriving DecidableEq, Repr

/-- A flag that changes the meaning of what follows it. -/
inductive Flag where
  | anyCase
  | manyLines
  | dotAll
  | swapGreed
  | unicode
  | returns
  | spaced
  deriving DecidableEq, Repr

/-- What is written between flags: a flag, or the mark that turns off the flags behind it. -/
structure FlagMark where
  flag : Option Flag
  stretch : Stretch
  deriving DecidableEq, Repr

/-- How often something occurs in a row, and whether often is tried before seldom. -/
structure Repetition where
  least : Nat
  most : Option Nat
  greedy : Bool
  ordered : forall m, most = some m -> least ≤ m
  deriving DecidableEq, Repr

namespace Repetition

/-- A repetition without an upper bound. -/
def atLeast (least : Nat) (greedy : Bool) : Repetition :=
  ⟨least, none, greedy, nofun⟩

def ofBounds? (least : Nat) (most : Option Nat) (greedy : Bool) : Option Repetition :=
  match most with
  | none => some (atLeast least greedy)
  | some m =>
      if h : least ≤ m then some ⟨least, some m, greedy, fun _ hm => Option.some.inj hm ▸ h⟩
      else none

/-- The repetition of something that matches often only where it matches once. -/
def ofBare (times : Repetition) : Repetition where
  least := min times.least 1
  most := some (min (times.most.getD 1) 1)
  greedy := times.greedy
  ordered := by
    rintro m ⟨⟩
    cases h : times.most with
    | none => exact Nat.min_le_right _ _
    | some most =>
        have hle := times.ordered most h
        simp only [Option.getD_some]
        omega

end Repetition

inductive SetOperator where
  | inter
  | diff
  | symmDiff
  deriving DecidableEq, Repr

/-!
## Trees
-/

/-- What is written between the brackets of a set. -/
inductive SetTree where
  | nothing (span : Stretch)
  | letter (span : Stretch) (letter : Letter)
  | range (span : Stretch) (low high : Stretch × Letter)
  | named (span : Stretch) (name : CharSet.Name) (negated : Bool)
  | shorthand (span : Stretch) (shorthand : Shorthand)
  | property (span : Stretch) (property : Property)
  | bracket (span : Stretch) (negated : Bool) (body : SetTree)
  | union (span : Stretch) (items : List SetTree)
  | combined (span : Stretch) (operator : SetOperator) (left right : SetTree)
  deriving Repr

def SetTree.stretch : SetTree -> Stretch
  | nothing s | letter s _ | range s _ _ | named s _ _ | shorthand s _ | property s _
  | bracket s _ _ | union s _ | combined s _ _ _ => s

/-- What is written outside of sets. -/
inductive Tree where
  | nothing (span : Stretch)
  | flags (span : Stretch) (marks : List FlagMark)
  | letter (span : Stretch) (letter : Letter)
  | dot (span : Stretch)
  | anchor (span : Stretch) (anchor : Anchor)
  | shorthand (span : Stretch) (shorthand : Shorthand)
  | property (span : Stretch) (property : Property)
  | bracket (span : Stretch) (negated : Bool) (body : SetTree)
  | repeated (span : Stretch) (times : Repetition) (body : Tree)
  | group (span : Stretch) (marks : List FlagMark) (captures : Bool) (body : Tree)
  | branches (span : Stretch) (items : List Tree)
  | sequence (span : Stretch) (items : List Tree)
  deriving Repr

namespace Tree

def stretch : Tree -> Stretch
  | nothing s | flags s _ | letter s _ | dot s | anchor s _ | shorthand s _ | property s _
  | bracket s _ _ | repeated s _ _ | group s _ _ _ | branches s _ | sequence s _ => s

def isRepeatable : Tree -> Bool
  | nothing _ | flags _ _ => false
  | _ => true

/-- Several items in a row. -/
def ofItems (s : Stretch) : List Tree -> Tree
  | [] => nothing s
  | [item] => item
  | items => sequence s items

end Tree

/-- A set in brackets as a part of a pattern. -/
def SetTree.toTree : SetTree -> Tree
  | bracket span negated body => .bracket span negated body
  | set => .bracket set.stretch false set

def SetTree.ofItems (s : Stretch) : List SetTree -> SetTree
  | [] => nothing s
  | [item] => item
  | items => union s items

/-- Does a list of marks turn a flag on or off? -/
def flagState (flag : Flag) (on : Bool) : List FlagMark -> Option Bool
  | [] => none
  | ⟨none, _⟩ :: more => flagState flag false more
  | ⟨some f, _⟩ :: more => if f = flag then some on else flagState flag on more

/-!
## Depth
-/

mutual

/-- The first part of a set that is nested too deep. -/
def SetTree.tooDeep? (limit : Nat) (depth : Nat) : SetTree -> Option Stretch
  | .bracket s _ body =>
      if depth < limit then body.tooDeep? limit (depth + 1) else some s
  | .union s items =>
      if depth < limit then setsTooDeep? limit (depth + 1) items else some s
  | .combined s _ left right =>
      if depth < limit then
        (left.tooDeep? limit (depth + 1)).orElse fun _ => right.tooDeep? limit (depth + 1)
      else some s
  | _ => none

def setsTooDeep? (limit : Nat) (depth : Nat) : List SetTree -> Option Stretch
  | [] => none
  | item :: items =>
      (item.tooDeep? limit depth).orElse fun _ => setsTooDeep? limit depth items

end

mutual

def Tree.tooDeep? (limit : Nat) (depth : Nat) : Tree -> Option Stretch
  | .bracket s _ body =>
      if depth < limit then body.tooDeep? limit (depth + 1) else some s
  | .repeated s _ body =>
      if depth < limit then body.tooDeep? limit (depth + 1) else some s
  | .group s _ _ body =>
      if depth < limit then body.tooDeep? limit (depth + 1) else some s
  | .branches s items =>
      if depth < limit then itemsTooDeep? limit (depth + 1) items else some s
  | .sequence s items =>
      if depth < limit then itemsTooDeep? limit (depth + 1) items else some s
  | _ => none

def itemsTooDeep? (limit : Nat) (depth : Nat) : List Tree -> Option Stretch
  | [] => none
  | item :: items =>
      (item.tooDeep? limit depth).orElse fun _ => itemsTooDeep? limit depth items

end

end Pattern
end LoopNest
