import LoopNest.Pattern.Matching
import LoopNest.Pattern.Tally

/-!
# Building programs

Programs are built from smaller ones, and their size is bounded while it is counted.
-/

namespace LoopNest
namespace Pattern

/-!
## Building patterns

Patterns are kept in a normal form while they are built.  Rows are flat, and the characters
in them stand together; alternatives are flat, too, sets among them become one set, and what
all of them start with stands in front of them.
-/

/-!
### Sets
-/

/-- The pattern of a set.  A set with one member is a character. -/
def ofSet (unicode : Bool) (set : CharSet) : Pattern :=
  if set.isEmpty then .one false .empty
  else
    match set.only? with
    | some c => .text [c]
    | none => .one unicode set

/-!
### Rows
-/

def itemsOf : Pattern -> List Pattern
  | .empty => []
  | .sequence items => items
  | p => [p]

/-- Puts a pattern in front of a row; characters are joined. -/
def pushFront (p : Pattern) (row : List Pattern) : List Pattern :=
  match p, row with
  | .text first, .text chars :: more => .text (first ++ chars) :: more
  | _, _ => p :: row

def inRow (ps : List Pattern) : Pattern :=
  match (ps.flatMap itemsOf).foldr pushFront [] with
  | [] => .empty
  | [p] => p
  | items => .sequence items

/-!
### Equality
-/

mutual

/-- Are two patterns the same?  A group is the same as no other one. -/
def same : Pattern -> Pattern -> Bool
  | .empty, .empty => true
  | .text a, .text b => a == b
  | .one u s, .one v t => u == v && s.ranges == t.ranges
  | .look a, .look b => a == b
  | .sequence ps, .sequence qs => allSame ps qs
  | .either ps, .either qs => allSame ps qs
  | .repeated a p, .repeated b q => a == b && p.same q
  | _, _ => false

/-- Are the patterns of two lists the same? -/
def allSame : List Pattern -> List Pattern -> Bool
  | [], [] => true
  | p :: ps, q :: qs => p.same q && allSame ps qs
  | _, _ => false

end

/-!
### Alternatives
-/

def alternativesOf : Pattern -> List Pattern
  | .either items => items
  | p => [p]

def char? : Pattern -> Option Char
  | .text [c] => some c
  | _ => none

def set? : Pattern -> Option CharSet
  | .one _ set => some set
  | _ => none

/-- Alternatives that are characters only, or sets only, as one set. -/
def joined? (items : List Pattern) : Option Pattern :=
  match items.mapM char?, items.mapM set? with
  | some cs, _ => some (ofSet true (.ofRanges (cs.map fun c => ⟨c.toNat, c.toNat⟩)))
  | _, some sets => some (ofSet true (sets.foldl CharSet.union .empty))
  | none, none => none

/-- How many items two rows have in common at their start. -/
def commonLength : List Pattern -> List Pattern -> Nat
  | p :: ps, q :: qs => if p.same q then commonLength ps qs + 1 else 0
  | _, _ => 0

def row? : Pattern -> Option (List Pattern)
  | .sequence items => some items
  | _ => none

/-- What all alternatives start with, and the rest of each of them. -/
def commonStart? (items : List Pattern) : Option (List Pattern × List Pattern) :=
  match items.mapM row? with
  | some (first :: more) =>
      match more.foldl (fun n row => min n (commonLength first row)) first.length with
      | 0 => none
      | n + 1 =>
          some (first.take (n + 1), (first :: more).map fun row => inRow (row.drop (n + 1)))
  | _ => none

mutual

/-- The number of parts of a pattern. -/
def partCount : Pattern -> Nat
  | .empty | .text _ | .one _ _ | .look _ => 1
  | .sequence items | .either items => partCounts items + 1
  | .repeated _ body | .group body => body.partCount + 1

def partCounts : List Pattern -> Nat
  | [] => 0
  | item :: items => item.partCount + partCounts items

end

/-- Any of several patterns; what they start with is taken out at most `fuel` times. -/
def anyOfWithin : (fuel : Nat) -> List Pattern -> Pattern
  | fuel, ps =>
      match ps.flatMap alternativesOf with
      | [p] => p
      | items =>
          match joined? items, commonStart? items, fuel with
          | some p, _, _ => p
          | none, some (start, rests), fuel + 1 => inRow (start ++ [anyOfWithin fuel rests])
          | none, _, _ => .either items

/-- Any of several patterns.  Every time something is taken out the patterns have fewer
parts. -/
def anyOf (ps : List Pattern) : Pattern :=
  anyOfWithin (partCounts ps) ps

/-!
### Repetitions
-/

mutual

/-- Does every match have no characters? -/
def isBare : Pattern -> Bool
  | .empty | .look _ => true
  | .text _ | .one _ _ => false
  | .sequence items | .either items => allBare items
  | .repeated _ body | .group body => body.isBare

/-- Have the matches of all of some patterns no characters? -/
def allBare : List Pattern -> Bool
  | [] => true
  | item :: items => item.isBare && allBare items

end

/-- A repetition.  What has no characters need not be repeated. -/
def repeatedBy (times : Repetition) (p : Pattern) : Pattern :=
  let times := if p.isBare then times.ofBare else times
  if times.most = some 0 then .empty
  else if times.least = 1 ∧ times.most = some 1 then p
  else .repeated times p

/-!
## Blueprints

A blueprint tells how the automaton of a pattern is built, for running over the bytes of a
text forward or backward.  Counting its states shows which patterns are too large: numbers in
braces can ask for any number of copies of a part.
-/

inductive Direction where
  | forward
  | backward
  deriving DecidableEq, Repr

/-- The parts of an automaton in the order in which they are built.  A fixed part has a
number of states and takes some more bytes. -/
inductive Blueprint where
  | fixed (states extra : Nat)
  | tree (tree : ByteTree)
  | forms (forms : List ByteForm)
  | row (items : List Blueprint)
  | fork (first second : Blueprint) (more : List Blueprint)
  | remembered (body : Blueprint)
  | repeated (times : Repetition) (consumes : Bool) (body : Blueprint)
  deriving Repr

/-!
### Words

Alternatives that are made of characters only are built as one tree, in which words that
start alike share their states.  A word that ends in the middle of others splits the branches
that are found before it from those behind it.
-/

/-- The runs of words that are not empty between those that are. -/
def runsBetween : List (List Nat) -> List (List (List Nat))
  | [] => [[]]
  | word :: more =>
      match word.isEmpty, runsBetween more with
      | false, run :: runs => (word :: run) :: runs
      | _, runs => [] :: runs

/-- The runs of words.  Empty words at the front count once. -/
def wordRuns (words : List (List Nat)) : List (List (List Nat)) :=
  match words with
  | [] :: more => [] :: runsBetween (more.dropWhile List.isEmpty)
  | words => runsBetween words

def wordBranches (words : List (List Nat)) : List (List (List Nat)) :=
  (words.filterMap List.head?).eraseDups.map fun byte =>
    (words.filter fun word => word.head? == some byte).map List.tail

/-- The states and the further bytes that a tree of words takes; the words have less than
`depth` bytes. -/
def wordStates : (depth : Nat) -> List (List Nat) -> Nat × Nat
  | 0, _ => (0, 0)
  | depth + 1, words =>
      if words.all List.isEmpty then (0, 0)
      else
        let runs := wordRuns words
        let branches := (runs.filter fun run => !run.isEmpty).map wordBranches
        let own := (1 + branches.length,
          Tally.branchBytes * (branches.length + runs.length - 1)
            + (branches.map fun b => if b.length = 1 then 0 else Tally.choiceBytes * b.length).sum)
        (branches.flatten.map (wordStates depth)).foldl (fun a b => (a.1 + b.1, a.2 + b.2)) own

def Direction.bytes (direction : Direction) (chars : List Char) : List Nat :=
  let bytes := chars.flatMap fun c => bytesOf c.toNat
  match direction with
  | forward => bytes
  | backward => bytes.reverse

def Blueprint.ofWords (direction : Direction) (words : List (List Char)) : Blueprint :=
  let words := words.map direction.bytes
  let (states, extra) := wordStates ((words.map List.length).foldl max 0 + 1) words
  fixed (states + 1) extra

def word? : Pattern -> Option (List Char)
  | .text chars => some chars
  | _ => none

/-!
### Patterns
-/

def Blueprint.ofSet (direction : Direction) (set : CharSet) : Blueprint :=
  if set.isAscii then fixed 2 (Tally.choiceBytes * set.ranges.length)
  else
    match direction with
    | .forward => tree set.tree
    | .backward => forms set.forms

def Blueprint.ofRow (direction : Direction) (items : List Blueprint) : Blueprint :=
  match direction with
  | .forward => row items
  | .backward => row items.reverse

def Blueprint.ofBranches : List Blueprint -> Blueprint
  | [] => fixed 1 0
  | [item] => item
  | first :: second :: more => fork first second more

mutual

/-- The least number of characters of a match.  A set without members leaves it open. -/
def leastLength : Pattern -> Option Nat
  | .empty | .look _ => some 0
  | .text chars => some chars.length
  | .one _ set => if set.isEmpty then none else some 1
  | .sequence items => leastLengths (· + ·) 0 items
  | .either [] => none
  | .either (item :: items) => do
      let n <- item.leastLength
      leastLengths min n items
  | .repeated times body => body.leastLength.map (· * times.least)
  | .group body => body.leastLength

/-- The least numbers of characters of some patterns, put together. -/
def leastLengths (combine : Nat -> Nat -> Nat) (n : Nat) : List Pattern -> Option Nat
  | [] => some n
  | item :: items => do
      let m <- item.leastLength
      leastLengths combine (combine n m) items

end

mutual

/-- The blueprint of a pattern.  An automaton that runs backward remembers no groups. -/
def blueprint (direction : Direction) : Pattern -> Blueprint
  | .empty | .look _ => .fixed 1 0
  | .text chars => .fixed (direction.bytes chars).length 0
  | .one _ set => .ofSet direction set
  | .sequence items => .ofRow direction (blueprints direction items)
  | .either items =>
      match items.mapM word? with
      | some words => .ofWords direction words
      | none => .ofBranches (blueprints direction items)
  | .repeated times body =>
      .repeated times (body.leastLength.any (0 < ·)) (body.blueprint direction)
  | .group body =>
      match direction with
      | .forward => .remembered (body.blueprint direction)
      | .backward => body.blueprint direction

def blueprints (direction : Direction) : List Pattern -> List Blueprint
  | [] => []
  | item :: items => item.blueprint direction :: blueprints direction items

end

end Pattern
end LoopNest
