import LoopNest.Pattern.Automaton
import LoopNest.Pattern.Building
import LoopNest.Pattern.Matching
import LoopNest.Pattern.Meaning
import LoopNest.Pattern.Reader

/-!
# Patterns

A pattern is read, built into a program, and looked for in a text.
-/

namespace LoopNest
namespace Pattern

/-!
## Patterns of a few words

Some patterns match a few words and nothing else.  They are searched for these words and need
no automaton, so they cannot be too large.  The words are found from the starts of the matches,
as long as there are not too many of them and they do not get too long.
-/

/-- How matches can start: the first bytes, and whether these are the whole match. -/
structure Start where
  bytes : List Nat
  whole : Bool
  deriving DecidableEq, Repr

/-- The starts of all matches, if they are known. -/
abbrev Starts :=
  Option (List Start)

namespace Starts

def greatestCount : Nat := 250

def greatestLength : Nat := 100

/-- The greatest number of characters of a set that are looked at one by one. -/
def greatestSet : Nat := 10

/-- The greatest number of copies that are looked at one by one. -/
def greatestCopies : Nat := 10

/-- The match without bytes only. -/
def nothing : Starts :=
  some [⟨[], true⟩]

def cut (length : Nat) (starts : List Start) : List Start :=
  starts.map fun s =>
    if length < s.bytes.length then ⟨s.bytes.take length, false⟩ else s

/-- The starts without those that come twice in a row; they are whole if both are. -/
def merge : List Start -> List Start
  | [] => []
  | s :: more =>
      match merge more with
      | [] => [s]
      | t :: rest =>
          if s.bytes = t.bytes then ⟨s.bytes, s.whole && t.whole⟩ :: rest else s :: t :: rest

def goingOn (starts : Starts) : Starts :=
  starts.map fun starts => starts.map fun s => { s with whole := false }

def allGoOn : Starts -> Bool
  | none => true
  | some starts => starts.all fun s => !s.whole

def followedBy (first second : Starts) : Starts :=
  match first, second with
  | none, _ => none
  | some starts, none =>
      if starts.any fun s => s.bytes.isEmpty then none else goingOn first
  | some starts, some ends =>
      if greatestCount < starts.length * ends.length then
        if starts.any fun s => s.bytes.isEmpty then none else goingOn first
      else
        some (cut greatestLength (merge (starts.flatMap fun s =>
          if s.whole then ends.map fun e => ⟨s.bytes ++ e.bytes, e.whole⟩ else [s])))

def orElse (first second : Starts) : Starts :=
  match first, second with
  | some starts, some others =>
      if starts.length + others.length ≤ greatestCount then some (merge (starts ++ others))
      else
        let starts := merge (cut 4 starts)
        let others := merge (cut 4 others)
        if starts.length + others.length ≤ greatestCount then some (merge (starts ++ others))
        else none
  | _, _ => none

/-- The starts of matches in a row, behind those that are known. -/
def inRow (first : Starts) : List Starts -> Starts
  | [] => first
  | second :: more => if allGoOn first then first else inRow (followedBy first second) more

def repeatedBy (times : Repetition) (starts : Starts) : Starts :=
  if times.least = 0 then
    let once := if times.most = some 1 then starts else goingOn starts
    if times.greedy then orElse once nothing else orElse nothing once
  else
    let all := inRow nothing (List.replicate (min times.least greatestCopies) starts)
    if times.most = some times.least ∧ times.least ≤ greatestCopies then all else goingOn all

def ofSet (set : CharSet) : Starts :=
  if greatestSet < set.ranges.foldr (fun r count => r.high + 1 - r.low + count) 0 then none
  else
    some (set.ranges.flatMap fun r =>
      (List.range' r.low (r.high + 1 - r.low)).map fun n => ⟨bytesOf n, true⟩)

end Starts

mutual

def starts : Pattern -> Starts
  | .empty | .look _ => .nothing
  | .text chars =>
      some (Starts.cut Starts.greatestLength [⟨Direction.forward.bytes chars, true⟩])
  | .one _ set => .ofSet set
  | .sequence items => .inRow .nothing (allStarts items)
  | .either items => (allStarts items).foldl Starts.orElse (some [])
  | .repeated times body => body.starts.repeatedBy times
  | .group body => body.starts

def allStarts : List Pattern -> List Starts
  | [] => []
  | item :: items => item.starts :: allStarts items

end

mutual

/-- Is the pattern free from conditions and groups? -/
def isPlain : Pattern -> Bool
  | .empty | .text _ | .one _ _ => true
  | .look _ | .group _ => false
  | .sequence items | .either items => allPlain items
  | .repeated _ body => body.isPlain

def allPlain : List Pattern -> Bool
  | [] => true
  | item :: items => item.isPlain && allPlain items

end

/-- Does the pattern match a few words and nothing else? -/
def isOfWords (p : Pattern) : Bool :=
  p.isPlain &&
    match p.starts with
    | none | some [] => false
    | some starts => starts.all fun s => s.whole && !s.bytes.isEmpty

/-!
## Patterns of texts

A pattern is written as a text.  Not every text writes one, and not every pattern can be
looked for: it may be too large, or it may speak of words of all letters.
-/

/-- Why a text gives no pattern that can be looked for. -/
inductive Refusal where
  | malformed (error : Error)
  | tooLarge (limit : Nat)
  | wordsUnknown
  deriving DecidableEq, Repr

def Refusal.message (text : String) : Refusal -> String
  | malformed error => error.display text
  | tooLarge limit => "Compiled regex exceeds size limit of " ++ toString limit ++ " bytes."
  | wordsUnknown => "error building NFA"

mutual

/-- Is there a condition on words of all letters? -/
def asksForWords : Pattern -> Bool
  | .look (.word _ unicode) => unicode
  | .empty | .text _ | .one _ _ | .look _ => false
  | .sequence items | .either items => anyAsksForWords items
  | .repeated _ body | .group body => body.asksForWords

def anyAsksForWords : List Pattern -> Bool
  | [] => false
  | item :: items => item.asksForWords || anyAsksForWords items

end

/-- Why there are no automata for a pattern.  Conditions on words are examined when the
automaton that runs forward is there, and before the one that runs backward is built. -/
def obstacle? (p : Pattern) : Option Refusal :=
  if !p.fits .forward then some (.tooLarge Tally.greatestBytes)
  else if p.asksForWords then some .wordsUnknown
  else if !p.fits .backward then some (.tooLarge Tally.greatestBytes)
  else none

/-- The pattern in the form to look for, if it can be looked for.  A pattern of a few words
needs no automaton. -/
def check (p : Pattern) : Except Refusal Pattern :=
  match p.obstacle? with
  | none => .ok p.unnested
  | some refusal => if p.isOfWords then .ok p.unnested else .error refusal

def ofText (text : String) : Except Refusal Pattern :=
  match Tree.read text with
  | .error e => .error (.malformed e)
  | .ok tree =>
      match tree.meaning .standard with
      | .error e => .error (.malformed e)
      | .ok (p, _) => p.check

end Pattern
end LoopNest
