import LoopNest.Pattern.Cursor
import LoopNest.Pattern.Tree

/-!
# Reading escapes and sets

What stands behind a backslash, and what stands between brackets.
-/

namespace LoopNest
namespace Pattern

/-!
## Reading single items

An item is a character that stands for itself, a point, an anchor, or what is written with a
backslash.  The same items stand inside and outside of sets, though not every item means
something inside.
-/

inductive Item where
  | letter (letter : Letter)
  | dot
  | anchor (anchor : Anchor)
  | shorthand (shorthand : Shorthand)
  | property (property : Property)
  deriving DecidableEq, Repr

def Item.toTree (span : Stretch) : Item -> Tree
  | letter l => .letter span l
  | dot => .dot span
  | anchor a => .anchor span a
  | shorthand s => .shorthand span s
  | property p => .property span p

def Item.toSetTree (span : Stretch) : Item -> Except Error SetTree
  | letter l => .ok (.letter span l)
  | shorthand s => .ok (.shorthand span s)
  | property p => .ok (.property span p)
  | dot | anchor _ => refuse .escapeInSet span

def Item.toLetter (span : Stretch) : Item -> Except Error Letter
  | letter l => .ok l
  | _ => refuse .rangeOfNoCharacters span

/-!
### Hexadecimal numbers
-/

def isHexDigit (c : Char) : Bool :=
  c.isDigit || ('a' ≤ c && c ≤ 'f') || ('A' ≤ c && c ≤ 'F')

def hexDigitValue (c : Char) : Nat :=
  if c.isDigit then c.toNat - '0'.toNat
  else if 'a' ≤ c then c.toNat - 'a'.toNat + 10
  else c.toNat - 'A'.toNat + 10

def hexValue (digits : List Char) : Nat :=
  digits.foldl (fun value c => 16 * value + hexDigitValue c) 0

def scalar? (n : Nat) : Option Char :=
  if n < 0xd800 ∨ (0xdfff < n ∧ n < 0x110000) then some (Char.ofNat n) else none

/-- A number of digits, at the first of them. -/
def readHexDigits : (count : Nat) -> Cursor -> Except Error (List Char × Cursor)
  | 0, k => .ok ([], k)
  | count + 1, k =>
      match k.rest with
      | [] => refuse .escapeUnfinished k.here
      | c :: _ =>
          if isHexDigit c then do
            let (digits, rest) <- readHexDigits count k.advance
            return (c :: digits, rest)
          else refuse .hexNoDigit k.charStretch

/-- A character by its number between braces, at the opening brace. -/
def readHexBraces (start : Position) (k : Cursor) : Except Error (Item × Stretch × Cursor) :=
  let (digits, last) := k.advance.gather isHexDigit
  if last.atEnd then refuse .escapeUnfinished ⟨k.position, last.position⟩
  else if !last.sees '\x7d' then refuse .hexNoDigit last.charStretch
  else
    let rest := last.advance
    if digits.isEmpty then refuse .hexEmpty ⟨k.position, rest.position⟩
    else
      match scalar? (hexValue digits) with
      | none => refuse .hexNoCharacter ⟨k.charStretch.stop, last.position⟩
      | some c => .ok (.letter ⟨c, false⟩, ⟨start, rest.position⟩, rest)

/-- A character by its number, at the letter that tells how many digits there are. -/
def readHex (start : Position) (count : Nat) (k : Cursor) :
    Except Error (Item × Stretch × Cursor) :=
  let first := k.advance
  if first.atEnd then refuse .escapeUnfinished first.here
  else if first.sees '\x7b' then readHexBraces start first
  else do
    let (digits, rest) <- readHexDigits count first
    match scalar? (hexValue digits) with
    | none => refuse .hexNoCharacter ⟨first.position, rest.position⟩
    | some c => return (.letter ⟨c, count == 2⟩, ⟨start, rest.position⟩, rest)

/-!
### Properties
-/

/-- The name of a property without what does not count in it. -/
def plainName (name : List Char) : List Char :=
  let kept (cs : List Char) : List Char :=
    (cs.filter fun c => c != ' ' && c != '_' && c != '-' && decide (c.toNat < 0x80)).map
      Char.toLower
  match name with
  | 'i' :: 's' :: more | 'I' :: 's' :: more | 'i' :: 'S' :: more | 'I' :: 'S' :: more =>
      if kept more = ['c'] then ['i', 's', 'c'] else kept more
  | _ => kept name

def readProperty (start : Position) (k : Cursor) : Except Error (Item × Stretch × Cursor) :=
  let first := k.advance
  match first.rest with
  | [] => refuse .escapeUnfinished first.here
  | c :: _ =>
      if c = '\x7b' then
        let (name, last) := first.advance.gather (· != '\x7d')
        if last.atEnd then refuse .escapeUnfinished last.here
        else
          let rest := last.next
          let hasValue := name.any fun c => c == ':' || c == '='
          let property : Property := ⟨String.ofList (plainName name), hasValue⟩
          .ok (.property property, ⟨start, rest.position⟩, rest)
      else if c = '\\' then refuse .propertyInvalid first.charStretch
      else
        let rest := first.advance
        .ok (.property ⟨String.ofList (plainName [c]), false⟩, ⟨start, rest.position⟩, rest)

/-!
### Word boundaries
-/

/-- The sides of a word by their names. -/
def wordMarks : List (String × WordMark) :=
  [("start", .start), ("end", .stop), ("start-half", .startHalf), ("end-half", .stopHalf)]

def isMarkLetter (c : Char) : Bool :=
  ('a' ≤ c && c ≤ 'z') || ('A' ≤ c && c ≤ 'Z') || c == '-'

/-- The side of a word that a name between braces tells, at the opening brace; none if this
is a repetition. -/
def readWordMark? (start : Position) (k : Cursor) :
    Except Error (Option (WordMark × Cursor)) :=
  let first := k.advance
  match first.rest with
  | [] => refuse .boundaryUnfinished ⟨start, first.position⟩
  | c :: _ =>
      if !isMarkLetter c then .ok none
      else
        let (name, last) := first.gather isMarkLetter
        if !last.sees '\x7d' then refuse .boundaryUnclosed ⟨k.position, last.position⟩
        else
          match wordMarks.lookup (String.ofList name) with
          | none => refuse .boundaryUnknown ⟨first.position, last.position⟩
          | some mark => .ok (some (mark, last.next))

/-- A word boundary, behind its letter. -/
def readBoundary (start : Position) (k : Cursor) : Except Error (Item × Stretch × Cursor) := do
  let plain := (Item.anchor (.word .boundary), (⟨start, k.position⟩ : Stretch), k)
  if k.sees '\x7b' then
    match <- readWordMark? start k with
    | none => return plain
    | some (mark, rest) => return (.anchor (.word mark), ⟨start, rest.position⟩, rest)
  else return plain

/-!
### Items
-/

/-- A character that means something else without a backslash. -/
def isMeta (c : Char) : Bool :=
  "\\.+*?()|[]\x7b\x7d^$#&-~".toList.contains c

/-- A character that stands for itself behind a backslash. -/
def isEscapable (c : Char) : Bool :=
  isMeta c || (decide (c.toNat < 0x80) && !c.isAlphanum && c != '<' && c != '>')

/-- The characters that letters behind a backslash stand for. -/
def controls : List (Char × Char) :=
  [ ('a', '\x07'), ('f', '\x0c'), ('t', '\t'), ('n', '\n'), ('r', '\r'), ('v', '\x0b') ]

/-- The sets that letters behind a backslash stand for. -/
def shorthands : List (Char × Shorthand) :=
  [ ('d', ⟨.digit, false⟩), ('D', ⟨.digit, true⟩), ('s', ⟨.space, false⟩),
    ('S', ⟨.space, true⟩), ('w', ⟨.word, false⟩), ('W', ⟨.word, true⟩) ]

/-- The anchors that characters behind a backslash stand for. -/
def anchors : List (Char × Anchor) :=
  [ ('A', .textStart), ('z', .textEnd), ('B', .word .noBoundary), ('<', .word .start),
    ('>', .word .stop) ]

/-- What is written with a backslash, at the backslash. -/
def readEscape (k : Cursor) : Except Error (Item × Stretch × Cursor) :=
  let start := k.position
  let first := k.next
  match first.rest with
  | [] => refuse .escapeUnfinished ⟨start, first.position⟩
  | c :: _ =>
      let rest := first.next
      let span : Stretch := ⟨start, rest.position⟩
      if c.isDigit then refuse .backReference span
      else if c = 'x' then readHex start 2 first
      else if c = 'u' then readHex start 4 first
      else if c = 'U' then readHex start 8 first
      else if c = 'p' ∨ c = 'P' then readProperty start first
      else if c = 'b' then readBoundary start rest
      else if isEscapable c then .ok (.letter ⟨c, false⟩, span, rest)
      else
        match shorthands.lookup c, controls.lookup c, anchors.lookup c with
        | some s, _, _ => .ok (.shorthand s, span, rest)
        | _, some d, _ => .ok (.letter ⟨d, false⟩, span, rest)
        | _, _, some a => .ok (.anchor a, span, rest)
        | none, none, none => refuse .escapeUnknown span

/-- A character, or what is written with a backslash, at its first character `c`. -/
def readLetter (c : Char) (k : Cursor) : Except Error (Item × Stretch × Cursor) :=
  if c = '\\' then readEscape k else .ok (.letter ⟨c, false⟩, k.charStretch, k.next)

/-- A single item outside of sets, at its first character `c`. -/
def readItem (c : Char) (k : Cursor) : Except Error (Item × Stretch × Cursor) :=
  if c = '.' then .ok (.dot, k.charStretch, k.next)
  else if c = '^' then .ok (.anchor .lineStart, k.charStretch, k.next)
  else if c = '$' then .ok (.anchor .lineEnd, k.charStretch, k.next)
  else readLetter c k

/-!
## Reading sets

A set stands in square brackets.  Sets may be written inside of sets, and two signs in a row
combine what stands before them with what stands behind them, from left to right.
-/

/-!
### Open sets
-/

/-- A set that is being read: where it opened, the combination that waits for its right side,
and the items read since, the last one first. -/
structure OpenSet where
  opening : Stretch
  negated : Bool
  waiting : Option (SetOperator × SetTree)
  span : Stretch
  items : List SetTree
  deriving Repr

namespace OpenSet

def push (s : OpenSet) (item : SetTree) : OpenSet :=
  { s with
    span := ⟨if s.items.isEmpty then item.stretch.start else s.span.start, item.stretch.stop⟩
    items := item :: s.items }

/-- What has been read, with the combination that was waiting. -/
def body (s : OpenSet) : SetTree :=
  let right := SetTree.ofItems s.span s.items.reverse
  match s.waiting with
  | none => right
  | some (operator, left) =>
      .combined ⟨left.stretch.start, right.stretch.stop⟩ operator left right

/-- The set behind the sign of an operator. -/
def combine (s : OpenSet) (operator : SetOperator) (k : Cursor) : OpenSet :=
  { s with waiting := some (operator, s.body), span := k.here, items := [] }

def close (s : OpenSet) (stop : Position) : SetTree :=
  .bracket ⟨s.opening.start, stop⟩ s.negated s.body

end OpenSet

/-- The hyphens that stand for themselves behind an opening bracket, in at most `count`
steps. -/
def openHyphens (start : Position) : (count : Nat) -> OpenSet -> Cursor ->
    Except Error (OpenSet × Cursor)
  | 0, s, k => .ok (s, k)
  | count + 1, s, k =>
      if k.sees '-' then
        let s := s.push (.letter k.charStretch ⟨'-', false⟩)
        if k.advance.atEnd then refuse .setUnclosed (.atPosition start)
        else openHyphens start count s k.advance
      else .ok (s, k)

/-- Opens a set, at its bracket.  Hyphens at the front stand for themselves, and so does a
closing bracket if it is the first character. -/
def openSet (k : Cursor) : Except Error (OpenSet × Cursor) := do
  let start := k.position
  let first := k.advance
  let unclosed (last : Cursor) : Except Error (OpenSet × Cursor) :=
    refuse .setUnclosed ⟨start, last.position⟩
  if first.atEnd then unclosed first
  else
    let negated := first.sees '^'
    let inner := if negated then first.advance else first
    if inner.atEnd then unclosed inner
    else
      let hyphens := (inner.gather (· == '-')).1.length
      let (s, rest) <- openHyphens start hyphens ⟨k.here, negated, none, inner.here, []⟩ inner
      if s.items.isEmpty && rest.sees ']' then
        let s := s.push (.letter rest.charStretch ⟨']', false⟩)
        let rest := rest.advance
        if rest.atEnd then unclosed rest
        else return ({ s with opening := ⟨start, rest.position⟩ }, rest)
      else return ({ s with opening := ⟨start, rest.position⟩ }, rest)

/-!
### Items
-/

/-- The run up to a colon. -/
def untilColon (k : Cursor) : List Char × Cursor :=
  k.gatherClose (· != ':')

/-- A named set, at its bracket; none if this is something else. -/
def namedSet? (k : Cursor) : Option (SetTree × Cursor) := do
  let first <- k.behindWord? "[:"
  let negated := first.sees '^'
  let (name, last) := untilColon (if negated then first.next else first)
  let rest <- last.behindWord? ":]"
  let name <- CharSet.Name.ofText? (String.ofList name)
  return (.named ⟨k.position, rest.position⟩ name negated, rest)

/-- The sign of an operator in front of the cursor. -/
def operator? (k : Cursor) : Option (SetOperator × Cursor) :=
  (k.behindWord? "&&").map (fun rest => (SetOperator.inter, rest))
    |>.orElse fun _ => (k.behindWord? "--").map (fun rest => (SetOperator.diff, rest))
    |>.orElse fun _ => (k.behindWord? "~~").map (fun rest => (SetOperator.symmDiff, rest))

/-- An item or a range of a set, at its first character `c`; `opening` is where the set
opened. -/
def setRange (opening : Stretch) (c : Char) (k : Cursor) : Except Error (SetTree × Cursor) := do
  let (low, lowSpan, rest) <- readLetter c k
  let rest := rest.skip
  if rest.atEnd then refuse .setUnclosed opening
  else if !rest.sees '-' || rest.secondSolid? == some ']' || rest.secondSolid? == some '-' then
    let item <- low.toSetTree lowSpan
    return (item, rest)
  else
    let second := rest.advance
    match second.rest with
    | [] => refuse .setUnclosed opening
    | d :: _ => do
        let (high, highSpan, rest) <- readLetter d second
        let span : Stretch := ⟨lowSpan.start, highSpan.stop⟩
        let low <- low.toLetter lowSpan
        let high <- high.toLetter highSpan
        if low.char ≤ high.char then return (.range span (lowSpan, low) (highSpan, high), rest)
        else refuse .rangeBackwards span

/-!
### Sets
-/

/-- Where the reading of a set stands: the innermost set, the sets around it, and what is
left to read; or the whole set. -/
inductive SetStep where
  | more (set : OpenSet) (outer : List OpenSet) (rest : Cursor)
  | done (set : SetTree) (rest : Cursor)

/-- Reads one part of a set. -/
def setStep (s : OpenSet) (outer : List OpenSet) (k : Cursor) : Except Error SetStep :=
  match k.rest with
  | [] => refuse .setUnclosed s.opening
  | c :: _ =>
      if c = '[' then
        match namedSet? k with
        | some (item, rest) => .ok (.more (s.push item) outer rest)
        | none => do
            let (inner, rest) <- openSet k
            return .more inner (s :: outer) rest
      else if c = ']' then
        let closed := s.close k.next.position
        match outer with
        | [] => .ok (.done closed k.next)
        | around :: outer => .ok (.more (around.push closed) outer k.next)
      else
        match operator? k with
        | some (operator, rest) => .ok (.more (s.combine operator rest) outer rest)
        | none => do
            let (item, rest) <- setRange s.opening c k
            return .more (s.push item) outer rest

/-- Reads the rest of a set, in at most `fuel` parts. -/
def restOfSet : (fuel : Nat) -> OpenSet -> List OpenSet -> Cursor ->
    Except Error (SetTree × Cursor)
  | 0, s, _, _ => refuse .setUnclosed s.opening
  | fuel + 1, s, outer, k =>
      match setStep s outer k.skip with
      | .error e => .error e
      | .ok (.done set rest) => .ok (set, rest)
      | .ok (.more inner around rest) => restOfSet fuel inner around rest

/-- A set, at its bracket.  Every part takes at least one character, so as much fuel as there
are characters suffices. -/
def readSet (fuel : Nat) (k : Cursor) : Except Error (SetTree × Cursor) := do
  let (s, rest) <- openSet k
  restOfSet fuel s [] rest

end Pattern
end LoopNest
