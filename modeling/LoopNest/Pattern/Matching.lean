import LoopNest.Pattern.CharSet
import LoopNest.Pattern.Tree

/-!
# Matching

Which parts of a text a program matches, found with sets of places.
-/

namespace LoopNest
namespace Pattern

/-!
## Places in a text

The places of a text are numbered from zero, the last one behind its last character.  A set
of places is a number whose bits tell them, so that moving all of them by one character is
doubling the number.
-/

/-- A set of places. -/
abbrev Places :=
  Nat

namespace Places

/-- The places that lie in the first set only. -/
def without (first second : Places) : Places :=
  (first ||| second) ^^^ second

/-- The places one character further on. -/
def moved (places : Places) : Places :=
  2 * places

/-- The places in front of the characters that pass a test. -/
def before (test : Char -> Bool) : List Char -> Places
  | [] => 0
  | c :: cs => moved (before test cs) + (test c).toNat

end Places

/-!
### Texts
-/

/-- A text, as the places in front of each of its characters. -/
structure Haystack where
  length : Nat
  places : List (Char × Places)

namespace Haystack

def ofText (text : String) : Haystack :=
  let cs := text.toList
  ⟨cs.length, cs.eraseDups.map fun c => (c, Places.before (· == c) cs)⟩

def all (h : Haystack) : Places :=
  Nat.pow 2 (h.length + 1) - 1

def stop (h : Haystack) : Places :=
  Nat.pow 2 h.length

def before (h : Haystack) (test : Char -> Bool) : Places :=
  h.places.foldl (fun found p => if test p.1 then found ||| p.2 else found) 0

def behind (h : Haystack) (test : Char -> Bool) : Places :=
  Places.moved (h.before test)

/-- The places behind a row of characters that starts at the given places. -/
def behindRow (h : Haystack) : List Char -> Places -> Places
  | [], places => places
  | c :: chars, places =>
      if places = 0 then 0
      else behindRow h chars (Places.moved (places &&& h.before (· == c)))

end Haystack

/-!
### Conditions
-/

/-- A condition on a place in a text.  Lines end with a line feed, or with carriage returns
as well; words are made of ASCII characters or of all letters. -/
inductive Look where
  | textStart
  | textEnd
  | lineStart (returns : Bool)
  | lineEnd (returns : Bool)
  | word (mark : WordMark) (unicode : Bool)
  deriving DecidableEq, Repr

def isWordCharacter (c : Char) : Bool :=
  c.isAlphanum || c == '_'

/-- The places where a side of a word lies, among all places; some of them lie behind a
character of a word and some in front of one. -/
def WordMark.places (all behind before : Places) : WordMark -> Places
  | boundary => behind ^^^ before
  | noBoundary => Places.without all (behind ^^^ before)
  | start => Places.without before behind
  | stop => Places.without behind before
  | startHalf => Places.without all behind
  | stopHalf => Places.without all before

/-- The places where a condition holds.  A carriage return and a line feed behind it end a line
together. -/
def Look.places (h : Haystack) : Look -> Places
  | textStart => 1
  | textEnd => h.stop
  | lineStart false => 1 ||| h.behind (· == '\n')
  | lineStart true =>
      1 ||| h.behind (· == '\n') ||| Places.without (h.behind (· == '\r')) (h.before (· == '\n'))
  | lineEnd false => h.stop ||| h.before (· == '\n')
  | lineEnd true =>
      h.stop ||| h.before (· == '\r')
        ||| Places.without (h.before (· == '\n')) (h.behind (· == '\r'))
  | word mark _ => mark.places h.all (h.behind isWordCharacter) (h.before isWordCharacter)

end Pattern

/-!
## Matching patterns

The meaning of a pattern in a text is a function on sets of places: it takes the places where
matches start to the places where they end.
-/

/-- A regular expression.  Sets that were asked for as sets of bytes are told apart from sets
of characters. -/
inductive Pattern where
  | empty
  | text (chars : List Char)
  | one (unicode : Bool) (set : Pattern.CharSet)
  | look (condition : Pattern.Look)
  | sequence (items : List Pattern)
  | either (items : List Pattern)
  | repeated (times : Pattern.Repetition) (body : Pattern)
  | group (body : Pattern)
  deriving Repr

namespace Pattern

/-!
### Steps
-/

/-- Goes a number of steps, or until a step does not change the places. -/
def iterate (step : Places -> Places) : (count : Nat) -> Places -> Places
  | 0, places => places
  | count + 1, places =>
      let next := step places
      if next = places then places else iterate step count next

/-- The places found, and all that at most `count` steps lead to from the newest of them. -/
def spread (step : Places -> Places) : (count : Nat) -> (found newest : Places) -> Places
  | 0, found, _ => found
  | count + 1, found, newest =>
      let all := found ||| step newest
      if all = found then found else spread step count all (Places.without all found)

/-- The places that at least one step and at most `count` steps lead to from the newest of the
places found, besides those reached before. -/
def arrive (step : Places -> Places) : (count : Nat) -> (found newest reached : Places) -> Places
  | 0, _, _, reached => reached
  | count + 1, found, newest, reached =>
      let ends := step newest
      let all := found ||| ends
      if all = found then reached ||| ends
      else arrive step count all (Places.without all found) (reached ||| ends)

/-- The places where repetitions end.  A round that finds no new place is the last one, so
there are not more rounds than places. -/
def repeatedly (step : Places -> Places) (length : Nat) (times : Repetition)
    (places : Places) : Places :=
  match times.least, times.most with
  | 0, none => spread step (length + 1) places places
  | least + 1, none =>
      let first := iterate step least places
      arrive step (length + 1) first first 0
  | least, some most =>
      let first := iterate step least places
      spread step (most - least) first first

/-!
### Matching
-/

mutual

/-- The places where matches end that start at the given places. -/
def reach (h : Haystack) : Pattern -> Places -> Places
  | .empty, places => places
  | .text chars, places => h.behindRow chars places
  | .one _ set, places => Places.moved (places &&& h.before set.holds)
  | .look condition, places => places &&& condition.places h
  | .sequence items, places => reachAll h items places
  | .either items, places => reachAny h items places
  | .repeated times body, places =>
      if places = 0 then 0 else repeatedly (reach h body) h.length times places
  | .group body, places => reach h body places

/-- The places where matches of some patterns in a row end. -/
def reachAll (h : Haystack) : List Pattern -> Places -> Places
  | [], places => places
  | item :: items, places => if places = 0 then 0 else reachAll h items (reach h item places)

def reachAny (h : Haystack) : List Pattern -> Places -> Places
  | [], _ => 0
  | item :: items, places => reach h item places ||| reachAny h items places

end

/-- Does the pattern occur in a text? -/
def occursIn (p : Pattern) (text : String) : Bool :=
  let h := Haystack.ofText text
  p.reach h h.all != 0

end Pattern

namespace Pattern

/-!
## Loops in loops

A loop around parts that are loops themselves goes round the same texts as one loop around
what is inside of them.  Patterns are searched in this form: a loop in a loop would be walked
through once for every way to share the text between the two.
-/

mutual

/-- Can the pattern be passed over at every place? -/
def canBePassed : Pattern -> Bool
  | .empty => true
  | .text _ | .one _ _ | .look _ => false
  | .sequence items => allCanBePassed items
  | .either items => anyCanBePassed items
  | .repeated times body => times.least == 0 || body.canBePassed
  | .group body => body.canBePassed

def allCanBePassed : List Pattern -> Bool
  | [] => true
  | item :: items => item.canBePassed && allCanBePassed items

def anyCanBePassed : List Pattern -> Bool
  | [] => false
  | item :: items => item.canBePassed || anyCanBePassed items

end

/-- Is this a loop, or something that may be left out? -/
def isLoose (passing : Bool) (times : Repetition) : Bool :=
  (times.least == 0 && (passing && (times.most == some 1 || times.most == none)))
    || (times.least == 1 && times.most == none)

mutual

/-- What is inside of the loops of a pattern that stands in a loop itself.  If the outer loop
may be passed over, its parts need not come together, as long as each of them may be passed
over. -/
def loopBody (passing : Bool) : Pattern -> Pattern
  | .repeated times body =>
      if isLoose passing times then body.loopBody passing else .repeated times body
  | .either items => .either (loopBodies passing items)
  | .sequence items =>
      if passing && allCanBePassed items then .either (loopBodies passing items)
      else .sequence items
  | p => p

def loopBodies (passing : Bool) : List Pattern -> List Pattern
  | [] => []
  | item :: items => item.loopBody passing :: loopBodies passing items

end

/-- A repetition whose body has no loops in loops. -/
def loop (times : Repetition) (body : Pattern) : Pattern :=
  match times.least, times.most with
  | 0, none => .repeated times (body.loopBody true)
  | 1, none =>
      if body.canBePassed then .repeated (.atLeast 0 times.greedy) (body.loopBody true)
      else .repeated times (body.loopBody false)
  | _, _ => .repeated times body

mutual

/-- The pattern without loops in loops and without groups. -/
def unnested : Pattern -> Pattern
  | .sequence items => .sequence (allUnnested items)
  | .either items => .either (allUnnested items)
  | .repeated times body => loop times body.unnested
  | .group body => body.unnested
  | p => p

def allUnnested : List Pattern -> List Pattern
  | [] => []
  | item :: items => item.unnested :: allUnnested items

end

end Pattern
end LoopNest
