import LoopNest.Pattern.Building

/-!
# Automata

The states of an automaton are counted in the order in which they are built.  Parts that are
built one behind the other are linked; a part whose last state is a fork takes some more bytes
for that.
-/

namespace LoopNest
namespace Pattern

/-- A tally, and whether the part that was built last ends in a fork. -/
structure Built where
  tally : Tally
  fork : Bool
  deriving DecidableEq, Repr

namespace Built

def link (b : Built) : Option Tally :=
  b.tally.link b.fork

def followedByState (b : Built) (extra : Nat) (fork : Bool) : Option Built := do
  let t <- b.link
  return ⟨<- t.grow 1 extra, fork⟩

def followedByCopies (build : Tally -> Option Built) : (count : Nat) -> Built -> Option Built
  | 0, b => some b
  | count + 1, b =>
      match b.link with
      | none => none
      | some t =>
          match build t with
          | none => none
          | some copy => followedByCopies build count copy

/-- The part with copies of another one behind it that may be left out: a fork in front of
each of them leads behind all of them. -/
def followedByChoices (build : Tally -> Option Built) : (count : Nat) -> Built -> Option Built
  | 0, b => some b
  | count + 1, b =>
      match b.followedByState (2 * Tally.branchBytes) false with
      | none => none
      | some fork =>
          match build fork.tally with
          | none => none
          | some copy => followedByChoices build count copy

end Built

namespace Tally

/-- The tally with a part that does not end in a fork. -/
def built (t : Option Tally) : Option Built :=
  t.map fun t => ⟨t, false⟩

/-- Builds a number of copies; a single state if there are none. -/
def copies (build : Tally -> Option Built) (count : Nat) (t : Tally) : Option Built :=
  match count with
  | 0 => built (t.grow 1 0)
  | count + 1 => do
      (<- build t).followedByCopies build count

def optional (build : Tally -> Option Built) (t : Tally) : Option Built := do
  let t <- t.grow 1 (2 * branchBytes)
  (<- build t).followedByState 0 false

/-- Builds any number of copies.  If a copy surely has characters, one fork leads into it or
around it; otherwise two forks and a state behind them are needed. -/
def many (build : Tally -> Option Built) (consumes : Bool) (t : Tally) : Option Built :=
  if consumes then do
    let t <- t.grow 1 branchBytes
    let t <- (<- build t).link
    return ⟨t, true⟩
  else do
    let t <- (<- build t).link
    built (t.grow 3 (4 * branchBytes))

def repeatedly (times : Repetition) (consumes : Bool) (build : Tally -> Option Built)
    (t : Tally) : Option Built :=
  match times.least, times.most with
  | 0, none => many build consumes t
  | least, none => do
      (<- copies build least t).followedByState branchBytes true
  | least, some most =>
      if least = most then copies build least t
      else if least = 0 ∧ most = 1 then optional build t
      else do
        let first <- copies build least t
        let ahead : Built := ⟨<- first.tally.grow 1 0, first.fork⟩
        built (<- ahead.followedByChoices build (most - least)).link

end Tally

mutual

def Blueprint.build : Blueprint -> Tally -> Option Built
  | .fixed states extra, t => Tally.built (t.grow states extra)
  | .tree tree, t => Tally.built (t.growForward tree)
  | .forms forms, t => Tally.built (t.growBackward forms)
  | .row items, t => buildRow items ⟨t, false⟩
  | .fork first second more, t =>
      match buildBranch first.build t with
      | none => none
      | some t =>
          match buildBranch second.build t with
          | none => none
          | some t =>
              match t.grow 2 0 with
              | none => none
              | some t => Tally.built (buildBranches more t)
  | .remembered body, t =>
      match t.grow 1 0 with
      | none => none
      | some t =>
          match body.build t with
          | none => none
          | some b => b.followedByState 0 false
  | .repeated times consumes body, t => t.repeatedly times consumes body.build

def buildRow : List Blueprint -> Built -> Option Built
  | [], b => some b
  | item :: items, b =>
      match b.link with
      | none => none
      | some t =>
          match item.build t with
          | none => none
          | some b => buildRow items b

/-- Builds a branch, which a fork leads to and which is linked to what comes behind all
branches. -/
def buildBranch (build : Tally -> Option Built) (t : Tally) : Option Tally :=
  match build t with
  | none => none
  | some b =>
      match b.link with
      | none => none
      | some t => t.link true

def buildBranches : List Blueprint -> Tally -> Option Tally
  | [], t => some t
  | item :: items, t =>
      match buildBranch item.build t with
      | none => none
      | some t => buildBranches items t

end

/-!
## Whole automata
-/

mutual

/-- Is there no match except at the end of the text where the automaton starts? -/
def isAnchored (direction : Direction) : Pattern -> Bool
  | .look condition =>
      match direction with
      | .forward => condition == .textStart
      | .backward => condition == .textEnd
  | .sequence items =>
      match direction with
      | .forward => startIsAnchored direction items
      | .backward => (anchoringAtEnd direction items).2
  | .either items => allAnchored direction items
  | .repeated times body => times.least != 0 && body.isAnchored direction
  | .group body => body.isAnchored direction
  | .empty | .text _ | .one _ _ => false

/-- Is the first of some patterns anchored, or one behind patterns without characters? -/
def startIsAnchored (direction : Direction) : List Pattern -> Bool
  | [] => false
  | item :: items =>
      item.isAnchored direction || (item.isBare && startIsAnchored direction items)

/-- Have all of some patterns no characters, and is the last of them anchored, or one in
front of patterns without characters? -/
def anchoringAtEnd (direction : Direction) : List Pattern -> Bool × Bool
  | [] => (true, false)
  | item :: items =>
      let (bare, anchored) := anchoringAtEnd direction items
      (bare && item.isBare, anchored || (bare && item.isAnchored direction))

def allAnchored (direction : Direction) : List Pattern -> Bool
  | [] => true
  | item :: items => item.isAnchored direction && allAnchored direction items

end

/-- The blueprint of the whole automaton.  In front of the pattern any bytes are passed over,
unless it is anchored; a match that is run through forward is remembered; and there is a state
for the end of the match. -/
def automaton (direction : Direction) (p : Pattern) : Blueprint :=
  let front : Blueprint :=
    if p.isAnchored direction then .fixed 1 0
    else .repeated (.atLeast 0 false) true (.fixed 2 Tally.choiceBytes)
  let whole : Pattern :=
    match direction with
    | .forward => .group p
    | .backward => p
  .row [front, whole.blueprint direction, .fixed 1 0]

def fits (direction : Direction) (p : Pattern) : Bool :=
  ((p.automaton direction).build .empty).isSome

end Pattern
end LoopNest
