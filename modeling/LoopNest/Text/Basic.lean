/-!
# Texts

Readers that can fail, the lines and the parts of a text, and the places in it.
-/

namespace LoopNest

/-!
## Readers that can fail

A reader answers with what it read and what is left, or stops at the first fault.  Two
facts about such answers are used everywhere: when a sequence of two steps succeeds, and
when a list that is read item by item does.
-/

theorem bind_eq_ok {epsilon alpha beta : Type} {x : Except epsilon alpha}
    {f : alpha -> Except epsilon beta} {b : beta} :
    (x >>= f) = .ok b ↔ exists a, x = .ok a ∧ f a = .ok b := by
  cases x with
  | error e => simp [bind, Except.bind]
  | ok a => simp [bind, Except.bind]

/-- The first item of a list that is being read, in front of the rest of the list. -/
def consItem {epsilon alpha rho : Type} (x : alpha) (items : Except epsilon (List alpha × rho)) :
    Except epsilon (List alpha × rho) :=
  items.map fun p => (x :: p.1, p.2)

theorem consItem_eq_ok {epsilon alpha rho : Type} {x : alpha}
    {items : Except epsilon (List alpha × rho)} {xs : List alpha} {rest : rho} :
    consItem x items = .ok (xs, rest) ↔
      exists ys, items = .ok (ys, rest) ∧ xs = x :: ys := by
  cases items with
  | error e => simp [consItem, Except.map]
  | ok p =>
      cases p with
      | mk ys final =>
          simp only [consItem, Except.map, Except.ok.injEq, Prod.mk.injEq]
          constructor
          · intro h
            exact ⟨ys, ⟨rfl, h.2⟩, h.1.symm⟩
          · intro h
            obtain ⟨zs, ⟨hys, hrest⟩, hxs⟩ := h
            exact ⟨by rw [hys, hxs], hrest⟩

namespace Text

/-!
## Lines and parts

A text that consists of lines ends every one of them with a line feed, the last one too.  A
text that is taken apart into lines may end without a line feed, and lines may end with a
carriage return in front of it.
-/

def ofLines (lines : List String) : String :=
  String.ofList (lines.flatMap fun line => line.toList ++ ['\n'])

/-- The line without a carriage return at its end. -/
def dropReturn (line : List Char) : List Char :=
  match line.reverse with
  | '\r' :: front => front.reverse
  | _ => line

/-- The lines of a text, from a line on whose characters so far are given in reverse. -/
def linesFrom (before : List Char) : List Char -> List String
  | [] => if before.isEmpty then [] else [String.ofList before.reverse]
  | c :: cs =>
      if c = '\n' then String.ofList (dropReturn before.reverse) :: linesFrom [] cs
      else linesFrom (c :: before) cs

def lines (text : String) : List String :=
  linesFrom [] text.toList

/-- The parts of a text between the places where a character stands. -/
def parts (separator : Char) (text : String) : List String :=
  (text.toList.splitOn separator).map String.ofList

/-!
## Places in a text

A place is told by its line and its column.  Lines are counted from one; a column is the
number of bytes of the UTF-8 form between the start of the line and the place, so a place
can lie inside a character.
-/

structure Place where
  line : Nat
  column : Nat
  deriving DecidableEq, Repr

def byteCount (cs : List Char) : Nat :=
  cs.foldr (fun c count => c.utf8Size + count) 0

/-- The place that lies `offset` bytes behind a place in front of the text. -/
def Place.advance (p : Place) : List Char -> (offset : Nat) -> Place
  | [], _ => p
  | c :: cs, offset =>
      if offset < c.utf8Size then ⟨p.line, p.column + offset⟩
      else if c = '\n' then advance ⟨p.line + 1, 0⟩ cs (offset - c.utf8Size)
      else advance ⟨p.line, p.column + c.utf8Size⟩ cs (offset - c.utf8Size)

def Place.ofOffset (cs : List Char) (offset : Nat) : Place :=
  advance ⟨1, 0⟩ cs offset

def Place.display (p : Place) : String :=
  "line " ++ toString p.line ++ " column " ++ toString p.column

end Text
end LoopNest
