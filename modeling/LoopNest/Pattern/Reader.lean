import LoopNest.Pattern.SetReader
import LoopNest.Text.Classes

/-!
# Reading patterns

A pattern is read from left to right, part by part.  Groups may be nested; the reader keeps
the groups that are open, each with what was read before it.  A pattern that is nested too
deep is refused after it has been read.
-/

namespace LoopNest
namespace Pattern

/-!
## Repetitions
-/

/-- A decimal number between blanks.  Its value is missing if there are no digits. -/
def readCount (k : Cursor) : Except Error (Option Nat) × Stretch × Cursor :=
  let (_, first) := k.gatherClose Text.isBlank
  let (digits, last) := first.gather Char.isDigit
  let span : Stretch := ⟨first.position, last.position⟩
  let (_, rest) := last.gather Text.isBlank
  let value := digits.foldl (fun value c => 10 * value + (c.toNat - '0'.toNat)) 0
  if digits.isEmpty then (.ok none, span, rest)
  else if Nat.pow 2 32 ≤ value then (refuse .numberTooLarge span, span, rest)
  else (.ok (some value), span, rest)

def demandCount (count : Except Error (Option Nat)) (span : Stretch) : Except Error Nat := do
  match <- count with
  | none => refuse .countNoNumber span
  | some n => return n

/-- The bounds of a repetition, at its opening brace; the cursor stands at the closing
one. -/
def readBounds (k : Cursor) : Except Error ((Nat × Option Nat) × Cursor) :=
  let unclosed (last : Cursor) : Except Error ((Nat × Option Nat) × Cursor) :=
    refuse .countUnclosed ⟨k.position, last.position⟩
  let closed (bounds : Nat × Option Nat) (last : Cursor) :
      Except Error ((Nat × Option Nat) × Cursor) :=
    if last.sees '\x7d' then .ok (bounds, last) else unclosed last
  let first := k.advance
  if first.atEnd then unclosed first
  else
    let (least, leastSpan, rest) := readCount first
    if rest.atEnd then unclosed rest
    else if rest.sees ',' then
      let second := rest.advance
      if second.atEnd then unclosed second
      else if second.sees '\x7d' then do
        let least <- demandCount least leastSpan
        closed (least, none) second
      else do
        let least <- demandCount least leastSpan
        let (most, mostSpan, last) := readCount second
        let most <- demandCount most mostSpan
        closed (least, some most) last
    else do
      let least <- demandCount least leastSpan
      closed (least, some least) rest

/-- Is often tried before seldom?  A question mark turns that round. -/
def readGreed (k : Cursor) : Bool × Cursor :=
  if k.sees '?' then (false, k.next) else (true, k)

def readBraces (k : Cursor) : Except Error (Repetition × Cursor) := do
  let ((least, most), last) <- readBounds k
  let (greedy, rest) := readGreed last.advance
  match Repetition.ofBounds? least most greedy with
  | some times => return (times, rest)
  | none => refuse .countBackwards ⟨k.position, rest.position⟩

def signRepetition? (c : Char) : Option Repetition :=
  if c = '?' then Repetition.ofBounds? 0 (some 1) true
  else if c = '*' then some (.atLeast 0 true)
  else if c = '+' then some (.atLeast 1 true)
  else none

/-- A repetition that is written as a sign, at the sign. -/
def readSign (times : Repetition) (k : Cursor) : Repetition × Cursor :=
  let (greedy, rest) := readGreed k.next
  ({ times with greedy }, rest)

/-!
## Groups
-/

def flagLetters : List (Char × Flag) :=
  [ ('i', .anyCase), ('m', .manyLines), ('s', .dotAll), ('U', .swapGreed), ('u', .unicode),
    ('R', .returns), ('x', .spaced) ]

/-- Puts a mark behind others, unless it is there already. -/
def addMark (marks : List FlagMark) (mark : FlagMark) : Except Error (List FlagMark) :=
  match marks.find? fun m => m.flag == mark.flag with
  | none => .ok (marks ++ [mark])
  | some first =>
      refuseClash (if mark.flag.isNone then .negationTwice else .flagTwice) mark.stretch
        first.stretch

/-- The flags in front of a text, behind those that have been read; the text that is left
starts with a colon or a closing parenthesis. -/
def readFlags (marks : List FlagMark) : List Char -> Position ->
    Except Error (List FlagMark × List Char × Position)
  | [], p => refuse .flagMissing (.atPosition p)
  | c :: cs, p =>
      if c = ':' ∨ c = ')' then
        match marks.getLast? with
        | some ⟨none, span⟩ => refuse .negationDangling span
        | _ => .ok (marks, c :: cs, p)
      else
        let span : Stretch := ⟨p, p.behind c⟩
        match if c = '-' then some none else (flagLetters.lookup c).map some with
        | none => refuse .flagUnknown span
        | some flag =>
            match addMark marks ⟨flag, span⟩ with
            | .error e => .error e
            | .ok marks => readFlags marks cs (p.behind c)

def isNameCharacter (first : Bool) (c : Char) : Bool :=
  c == '_' || Text.isLetter c
    || (!first && (c == '.' || c == '[' || c == ']' || Text.isNumeral c))

/-- The name of a group in front of a text, up to its closing bracket. -/
def readName (first : Bool) : List Char -> Position ->
    Except Error (List Char × List Char × Position)
  | [], p => refuse .nameUnclosed (.atPosition p)
  | c :: cs, p =>
      if c = '>' then .ok ([], cs, p)
      else if isNameCharacter first c then
        match readName false cs (p.behind c) with
        | .error e => .error e
        | .ok (name, rest, last) => .ok (c :: name, rest, last)
      else refuse .nameInvalid ⟨p, p.behind c⟩

/-- The names of groups, each with the place where it is written. -/
abbrev Names :=
  List (String × Stretch)

/-- The name of a group, at its first character. -/
def readGroupName (names : Names) (k : Cursor) : Except Error (Names × Cursor) := do
  let (name, rest, last) <- readName true k.rest k.position
  let span : Stretch := ⟨k.position, last⟩
  if name.isEmpty then refuse .nameEmpty k.here
  else
    match names.lookup (String.ofList name) with
    | some earlier => refuseClash .nameTwice span earlier
    | none =>
        return ((String.ofList name, span) :: names,
          { k with rest, position := last.behind '>' })

inductive Opening where
  | flags (span : Stretch) (marks : List FlagMark)
  | group (span : Stretch) (marks : List FlagMark) (captures : Bool)
  deriving Repr

/-- The cursor behind the mark of a look around, if there is one. -/
def behindLookAround? (k : Cursor) : Option Cursor :=
  ["?=", "?!", "?<=", "?<!"].findSome? k.behindWord?

/-- The cursor behind the mark of a named group, if there is one. -/
def behindNameMark? (k : Cursor) : Option Cursor :=
  ["?P<", "?<"].findSome? k.behindWord?

def readOpening (names : Names) (k : Cursor) : Except Error (Opening × Names × Cursor) :=
  let span := k.charStretch
  let inner := k.advance
  match behindLookAround? inner, behindNameMark? inner, inner.behindWord? "?" with
  | some last, _, _ => refuse .lookAround ⟨span.start, last.position⟩
  | none, some name, _ => do
      let (names, rest) <- readGroupName names name
      return (.group span [] true, names, rest)
  | none, none, none => .ok (.group span [] true, names, inner)
  | none, none, some first =>
      if first.atEnd then refuse .groupUnclosed span
      else do
        let (marks, rest, last) <- readFlags [] first.rest first.position
        let behind := { first with rest, position := last }.next
        if rest.head? = some ')' then
          if marks.isEmpty then refuse .nothingToRepeat inner.here
          else return (.flags ⟨span.start, behind.position⟩ marks, names, behind)
        else return (.group span marks false, names, behind)

/-!
## Open groups
-/

/-- What has been read of a pattern or a group: where the current branch starts and its
items, the last one first; the branches before it, the last one first; and where the first
of them starts. -/
structure Level where
  start : Position
  items : List Tree
  branches : List Tree
  branchesStart : Position
  deriving Repr

namespace Level

def empty (p : Position) : Level :=
  ⟨p, [], [], p⟩

def push (l : Level) (item : Tree) : Level :=
  { l with items := item :: l.items }

/-- The current branch up to a position. -/
def branch (l : Level) (stop : Position) : Tree :=
  .ofItems ⟨l.start, stop⟩ l.items.reverse

/-- The level behind a bar, which is at a position. -/
def startBranch (l : Level) (stop after : Position) : Level :=
  { l with start := after, items := [], branches := l.branch stop :: l.branches }

/-- All that has been read, up to a position. -/
def tree (l : Level) (stop : Position) : Tree :=
  match l.branches with
  | [] => l.branch stop
  | branches => .branches ⟨l.branchesStart, stop⟩ (l.branch stop :: branches).reverse

end Level

/-- An open group: what was read before it, where it opened, its flags, whether it captures,
and whether blanks mean nothing around it. -/
structure OpenGroup where
  before : Level
  span : Stretch
  marks : List FlagMark
  captures : Bool
  spaced : Bool
  deriving Repr

structure Progress where
  level : Level
  outer : List OpenGroup
  names : Names
  cursor : Cursor
  deriving Repr

namespace Progress

def push (s : Progress) (item : Tree) (rest : Cursor) : Progress :=
  { s with level := s.level.push item, cursor := rest }

/-- Repeats the last item; `times` reads how often. -/
def repeatLast (s : Progress) (times : Cursor -> Except Error (Repetition × Cursor)) :
    Except Error Progress :=
  match s.level.items with
  | [] => refuse .nothingToRepeat s.cursor.here
  | item :: items =>
      if item.isRepeatable then do
        let (times, rest) <- times s.cursor
        let span : Stretch := ⟨item.stretch.start, rest.position⟩
        return { s with
          level := { s.level with items := .repeated span times item :: items }
          cursor := rest }
      else refuse .nothingToRepeat s.cursor.here

def openGroup (s : Progress) : Except Error Progress := do
  let (opening, names, rest) <- readOpening s.names s.cursor
  match opening with
  | .flags span marks =>
      let spaced := (flagState .spaced true marks).getD rest.spaced
      return { s with
        level := s.level.push (.flags span marks), names, cursor := { rest with spaced } }
  | .group span marks captures =>
      let spaced := (flagState .spaced true marks).getD rest.spaced
      return {
        level := .empty rest.position
        outer := ⟨s.level, span, marks, captures, rest.spaced⟩ :: s.outer
        names, cursor := { rest with spaced } }

def close (s : Progress) : Except Error Progress :=
  match s.outer with
  | [] => refuse .groupUnopened s.cursor.charStretch
  | g :: outer =>
      let rest := { s.cursor.next with spaced := g.spaced }
      let span : Stretch := ⟨g.span.start, rest.position⟩
      .ok { s with
        level := g.before.push (.group span g.marks g.captures (s.level.tree s.cursor.position))
        outer, cursor := rest }

/-- Goes on behind a part of the pattern, which starts with the character `c`; `fuel` is at
least the number of characters that are left. -/
def step (fuel : Nat) (s : Progress) (c : Char) : Except Error Progress :=
  match signRepetition? c with
  | some times => s.repeatLast fun k => .ok (readSign times k)
  | none =>
      if c = '(' then s.openGroup
      else if c = ')' then s.close
      else if c = '|' then
        let rest := s.cursor.next
        .ok { s with
          level := s.level.startBranch s.cursor.position rest.position, cursor := rest }
      else if c = '[' then do
        let (set, rest) <- readSet fuel s.cursor
        return s.push set.toTree rest
      else if c = '\x7b' then s.repeatLast readBraces
      else do
        let (item, span, rest) <- readItem c s.cursor
        return s.push (item.toTree span) rest

def finish (s : Progress) : Except Error Tree :=
  match s.outer with
  | [] => .ok (s.level.tree s.cursor.position)
  | g :: _ => refuse .groupUnclosed g.span

/-- Reads the rest of a pattern, in at most `fuel` parts. -/
def run : (fuel : Nat) -> Progress -> Except Error Tree
  | 0, s => s.finish
  | fuel + 1, s =>
      let k := s.cursor.skip
      match k.rest with
      | [] => { s with cursor := k }.finish
      | c :: _ =>
          match step (fuel + 1) { s with cursor := k } c with
          | .error e => .error e
          | .ok t => run fuel t

end Progress

/-- How deep a pattern may be nested. -/
def greatestDepth : Nat := 250

/-- The tree of a pattern.  Every part takes at least one character. -/
def Tree.read (text : String) : Except Error Tree := do
  let k := Cursor.start text
  let tree <- Progress.run (text.length + 1) ⟨.empty k.position, [], [], k⟩
  match tree.tooDeep? greatestDepth 0 with
  | some span => refuse (.tooDeep greatestDepth) span
  | none => return tree

end Pattern
end LoopNest
