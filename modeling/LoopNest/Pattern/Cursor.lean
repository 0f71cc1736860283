import LoopNest.Text.Basic
import LoopNest.Text.Classes

/-!
# Cursors

Places in a pattern, what can be wrong there, and the cursor that moves along it.
-/

namespace LoopNest
namespace Pattern

/-!
## Positions in patterns

A position is told by its line and its column, both counted from one; a column counts
characters.  A stretch leads from one position to another one.
-/

structure Position where
  line : Nat
  column : Nat
  deriving DecidableEq, Repr

namespace Position

def origin : Position :=
  ⟨1, 1⟩

def behind (p : Position) (c : Char) : Position :=
  if c = '\n' then ⟨p.line + 1, 1⟩ else ⟨p.line, p.column + 1⟩

def isBefore (p q : Position) : Bool :=
  decide (p.line < q.line) || (p.line == q.line && decide (p.column < q.column))

end Position

structure Stretch where
  start : Position
  stop : Position
  deriving DecidableEq, Repr

namespace Stretch

def atPosition (p : Position) : Stretch :=
  ⟨p, p⟩

def isOnOneLine (s : Stretch) : Bool :=
  s.start.line == s.stop.line

/-- Does the stretch start before another one, or end before it if both start together? -/
def isBefore (s t : Stretch) : Bool :=
  s.start.isBefore t.start || (s.start == t.start && s.stop.isBefore t.stop)

end Stretch

/-!
## Faults in patterns

A fault says what is wrong with a pattern, and an error where.  An error is displayed with
the pattern and with marks under the stretches that it speaks about.
-/

/-- What is wrong with a pattern. -/
inductive Fault where
  | escapeInSet
  | rangeBackwards
  | rangeOfNoCharacters
  | setUnclosed
  | numberTooLarge
  | hexEmpty
  | hexNoCharacter
  | hexNoDigit
  | escapeUnfinished
  | escapeUnknown
  | negationDangling
  | flagTwice
  | negationTwice
  | flagMissing
  | flagUnknown
  | nameTwice
  | nameEmpty
  | nameInvalid
  | nameUnclosed
  | groupUnclosed
  | groupUnopened
  | tooDeep (limit : Nat)
  | countBackwards
  | countNoNumber
  | countUnclosed
  | nothingToRepeat
  | boundaryUnclosed
  | boundaryUnknown
  | boundaryUnfinished
  | propertyInvalid
  | backReference
  | lookAround
  | characterNotAllowed
  | noText
  | propertyUnknown
  | propertyValueUnknown
  | classUnavailable
  | foldingUnavailable
  deriving DecidableEq, Repr

def Fault.message : Fault -> String
  | escapeInSet => "invalid escape sequence found in character class"
  | rangeBackwards => "invalid character class range, the start must be <= the end"
  | rangeOfNoCharacters => "invalid range boundary, must be a literal"
  | setUnclosed => "unclosed character class"
  | numberTooLarge => "decimal literal invalid"
  | hexEmpty => "hexadecimal literal empty"
  | hexNoCharacter => "hexadecimal literal is not a Unicode scalar value"
  | hexNoDigit => "invalid hexadecimal digit"
  | escapeUnfinished => "incomplete escape sequence, reached end of pattern prematurely"
  | escapeUnknown => "unrecognized escape sequence"
  | negationDangling => "dangling flag negation operator"
  | flagTwice => "duplicate flag"
  | negationTwice => "flag negation operator repeated"
  | flagMissing => "expected flag but got end of regex"
  | flagUnknown => "unrecognized flag"
  | nameTwice => "duplicate capture group name"
  | nameEmpty => "empty capture group name"
  | nameInvalid => "invalid capture group character"
  | nameUnclosed => "unclosed capture group name"
  | groupUnclosed => "unclosed group"
  | groupUnopened => "unopened group"
  | tooDeep limit =>
      "exceed the maximum number of nested parentheses/brackets (" ++ toString limit ++ ")"
  | countBackwards =>
      "invalid repetition count range, the start must be <= the end"
  | countNoNumber => "repetition quantifier expects a valid decimal"
  | countUnclosed => "unclosed counted repetition"
  | nothingToRepeat => "repetition operator missing expression"
  | boundaryUnclosed =>
      "special word boundary assertion is either unclosed or contains an invalid character"
  | boundaryUnknown =>
      "unrecognized special word boundary assertion, valid choices are: "
        ++ "start, end, start-half or end-half"
  | boundaryUnfinished =>
      "found either the beginning of a special word boundary or a bounded repetition on a "
        ++ "\\b with an opening brace, but no closing brace"
  | propertyInvalid => "invalid Unicode character class"
  | backReference => "backreferences are not supported"
  | lookAround => "look-around, including look-ahead and look-behind, is not supported"
  | characterNotAllowed => "Unicode not allowed here"
  | noText => "pattern can match invalid UTF-8"
  | propertyUnknown => "Unicode property not found"
  | propertyValueUnknown => "Unicode property value not found"
  | classUnavailable =>
      "Unicode-aware Perl class not found (make sure the unicode-perl feature is enabled)"
  | foldingUnavailable =>
      "Unicode-aware case insensitivity matching is not available "
        ++ "(make sure the unicode-case feature is enabled)"

/-- A fault, the stretch where it is, and the earlier stretch that it clashes with. -/
structure Error where
  fault : Fault
  stretch : Stretch
  earlier : Option Stretch
  deriving DecidableEq, Repr

def refuse {alpha : Type} (fault : Fault) (stretch : Stretch) : Except Error alpha :=
  .error ⟨fault, stretch, none⟩

/-- Refuses a pattern because of a clash with something earlier. -/
def refuseClash {alpha : Type} (fault : Fault) (stretch earlier : Stretch) :
    Except Error alpha :=
  .error ⟨fault, stretch, some earlier⟩

namespace Error

/-!
### Display
-/

def stretches (e : Error) : List Stretch :=
  match e.earlier with
  | none => [e.stretch]
  | some s => if e.stretch.isBefore s then [e.stretch, s] else [s, e.stretch]

/-- Marks under stretches of one line, from a column on. -/
def marks : (column : Nat) -> List Stretch -> String
  | _, [] => ""
  | column, s :: more =>
      let width := max 1 (s.stop.column - s.start.column)
      "".pushn ' ' (s.start.column - column) ++ "".pushn '^' width
        ++ marks (max column s.start.column + width) more

def lineCount (text : String) : Nat :=
  (text.splitOn "\n").length

def paddedNumber (width number : Nat) : String :=
  "".pushn ' ' (width - (toString number).length) ++ toString number

/-- What stands in front of a line. -/
def margin (count number : Nat) : String :=
  if count ≤ 1 then "    " else paddedNumber (toString count).length number ++ ": "

def markedLine (e : Error) (count : Nat) (line : String × Nat) : List String :=
  let front := margin count (line.2 + 1)
  let here := e.stretches.filter fun s => s.isOnOneLine && s.start.line == line.2 + 1
  (front ++ line.1) :: if here.isEmpty then [] else ["".pushn ' ' front.length ++ marks 1 here]

def markedLines (e : Error) (text : String) : List String :=
  (Text.lines text).zipIdx.flatMap (e.markedLine (lineCount text))

def range (s : Stretch) : String :=
  "on line " ++ toString s.start.line ++ " (column " ++ toString s.start.column
    ++ ") through line " ++ toString s.stop.line ++ " (column "
    ++ toString (s.stop.column - 1) ++ ")"

/-- The wording of an error in a pattern.  A pattern of several lines stands between rules,
and for stretches of several lines their ends are told. -/
def display (e : Error) (text : String) : String :=
  let long := (e.stretches.filter fun s => !s.isOnOneLine).map range
  let body :=
    if text.contains '\n' then
      let rule := "".pushn '~' 79
      rule :: e.markedLines text ++ rule :: long
    else e.markedLines text
  Text.ofLines ("regex parse error:" :: body) ++ "error: " ++ e.fault.message

end Error

/-!
## Cursors

A cursor stands in front of the part of a pattern that is still to be read.  In a spaced
pattern blanks mean nothing, and a number sign starts a comment that goes to the end of the
line.
-/

/-- What is left of a pattern, where it starts, and whether blanks mean nothing. -/
structure Cursor where
  rest : List Char
  position : Position
  spaced : Bool
  deriving DecidableEq, Repr

namespace Cursor

def start (text : String) : Cursor :=
  ⟨text.toList, .origin, false⟩

def atEnd (k : Cursor) : Bool :=
  k.rest.isEmpty

/-- The next character. -/
def char? (k : Cursor) : Option Char :=
  k.rest.head?

def sees (k : Cursor) (c : Char) : Bool :=
  k.rest.head? == some c

def here (k : Cursor) : Stretch :=
  .atPosition k.position

def charStretch (k : Cursor) : Stretch :=
  match k.rest with
  | [] => k.here
  | c :: _ => ⟨k.position, k.position.behind c⟩

/-- Behind the next character. -/
def next (k : Cursor) : Cursor :=
  match k.rest with
  | [] => k
  | c :: cs => { k with rest := cs, position := k.position.behind c }

/-- Behind the blanks and comments in front of a text; `comment` says that the text starts
inside a comment. -/
def blanks (comment : Bool) : List Char -> Position -> List Char × Position
  | [], p => ([], p)
  | c :: cs, p =>
      if comment then blanks (c != '\n') cs (p.behind c)
      else if Text.isBlank c then blanks false cs (p.behind c)
      else if c = '#' then blanks true cs (p.behind c)
      else (c :: cs, p)

/-- Behind blanks and comments, if they mean nothing. -/
def skip (k : Cursor) : Cursor :=
  if k.spaced then
    let (rest, position) := blanks false k.rest k.position
    { k with rest, position }
  else k

/-- Behind the next character and what means nothing. -/
def advance (k : Cursor) : Cursor :=
  k.next.skip

/-- Behind a word, if it is what comes next. -/
def behindWord? (k : Cursor) (word : String) : Option Cursor :=
  if word.toList.isPrefixOf k.rest then some (word.toList.foldl (fun k _ => k.next) k)
  else none

/-!
### Looking ahead
-/

def second? (k : Cursor) : Option Char :=
  k.rest.tail.head?

/-- The first character that is no blank; the first number sign is passed over, too. -/
def firstSolid? : (signs : Nat) -> List Char -> Option Char
  | _, [] => none
  | signs, c :: cs =>
      if Text.isBlank c then firstSolid? signs cs
      else
        match signs with
        | 0 => some c
        | signs + 1 => if c = '#' then firstSolid? signs cs else some c

/-- The character behind the next one and behind what means nothing. -/
def secondSolid? (k : Cursor) : Option Char :=
  if k.spaced then (firstSolid? 1 k.rest.tail).orElse fun _ => k.second? else k.second?

/-!
### Reading runs
-/

/-- The run of characters at the start of a text that pass a test, what is left of the text,
and where it starts.  If blanks mean nothing, they are passed over behind characters of the
run; `passing` and `comment` say that the text starts among them or in a comment. -/
def gatherFrom (keep : Char -> Bool) (spaced : Bool) : (passing comment : Bool) ->
    List Char -> Position -> List Char × List Char × Position
  | _, _, [], p => ([], [], p)
  | passing, comment, c :: cs, p =>
      if comment then gatherFrom keep spaced true (c != '\n') cs (p.behind c)
      else if passing && Text.isBlank c then gatherFrom keep spaced true false cs (p.behind c)
      else if passing && c == '#' then gatherFrom keep spaced true true cs (p.behind c)
      else if keep c then
        let (taken, rest, last) := gatherFrom keep spaced spaced false cs (p.behind c)
        (c :: taken, rest, last)
      else ([], c :: cs, p)

/-- The run of characters that pass a test, and the cursor behind it. -/
def gather (keep : Char -> Bool) (k : Cursor) : List Char × Cursor :=
  let (taken, rest, position) := gatherFrom keep k.spaced false false k.rest k.position
  (taken, { k with rest, position })

/-- The run of characters that pass a test and follow each other directly, and the cursor
behind it. -/
def gatherClose (keep : Char -> Bool) (k : Cursor) : List Char × Cursor :=
  let (taken, rest, position) := gatherFrom keep false false false k.rest k.position
  (taken, { k with rest, position })

end Cursor

end Pattern
end LoopNest
