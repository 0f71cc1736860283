import LoopNest.Pattern.Building
import LoopNest.Pattern.Cursor

/-!
# The meaning of patterns

The tree of a pattern becomes a regular expression under the flags that are set.  Texts are
made of characters, so a pattern that could match single bytes of them is refused.  Classes
of all letters and the folding of their case are not known here; they can be had for ASCII
characters, with the flag for all characters turned off.
-/

namespace LoopNest
namespace Pattern

/-!
## Flags
-/

structure Flags where
  anyCase : Bool
  manyLines : Bool
  dotAll : Bool
  swapGreed : Bool
  unicode : Bool
  returns : Bool
  deriving DecidableEq, Repr

namespace Flags

def standard : Flags :=
  ⟨false, false, false, false, true, false⟩

/-- The flags after some of them have been turned on or off. -/
def set (flags : Flags) (marks : List FlagMark) : Flags where
  anyCase := (flagState .anyCase true marks).getD flags.anyCase
  manyLines := (flagState .manyLines true marks).getD flags.manyLines
  dotAll := (flagState .dotAll true marks).getD flags.dotAll
  swapGreed := (flagState .swapGreed true marks).getD flags.swapGreed
  unicode := (flagState .unicode true marks).getD flags.unicode
  returns := (flagState .returns true marks).getD flags.returns

end Flags

/-!
## Sets
-/

/-- The set with its members in both cases, if the case does not matter. -/
def foldCase (flags : Flags) (span : Stretch) (s : CharSet) : Except Error CharSet :=
  if !flags.anyCase then .ok s
  else if !flags.unicode then .ok s.foldAscii
  else if s.folded || s.isEmpty then .ok { s with folded := true }
  else refuse .foldingUnavailable span

/-- The set, or everything except its members.  Bytes outside of ASCII are no text. -/
def negate (flags : Flags) (span : Stretch) (negated : Bool) (s : CharSet) :
    Except Error CharSet :=
  if flags.unicode then
    .ok (if negated then s.complement CharSet.characters else s)
  else
    let s := if negated then s.complement CharSet.bytes else s
    if s.isAscii then .ok s else refuse .noText span

/-- A set as it is meant in its brackets. -/
def finishSet (flags : Flags) (span : Stretch) (negated : Bool) (s : CharSet) :
    Except Error CharSet := do
  negate flags span negated (<- foldCase flags span s)

/-- The number of a character of a set.  Without the flag for all characters it must be an
ASCII character. -/
def memberNumber (flags : Flags) (span : Stretch) (l : Letter) : Except Error Nat :=
  if flags.unicode || decide (l.char.toNat < 0x80) then .ok l.char.toNat
  else refuse (if l.isByte then .noText else .characterNotAllowed) span

def shorthandSet (flags : Flags) (span : Stretch) (s : Shorthand) : Except Error CharSet :=
  if flags.unicode then refuse .classUnavailable span
  else negate flags span s.negated (.ofRanges s.name.ranges)

/-- The names that are no properties but values of one. -/
def valueNames : List String :=
  ["cf", "sc", "lc"]

/-- Why a property cannot be had. -/
def propertyFault (flags : Flags) (p : Property) : Fault :=
  if !flags.unicode then .characterNotAllowed
  else if !p.hasValue && valueNames.contains p.name then .propertyValueUnknown
  else .propertyUnknown

def SetOperator.apply (s t : CharSet) : SetOperator -> CharSet
  | inter => s.inter t
  | diff => s.diff t
  | symmDiff => s.symmDiff t

mutual

/-- The members of a set together with those of another one. -/
def SetTree.addTo (flags : Flags) (known : CharSet) : SetTree -> Except Error CharSet
  | .nothing _ => .ok known
  | .letter span l => do
      let n <- memberNumber flags span l
      return known.addRange ⟨n, n⟩
  | .range _ (lowSpan, low) (highSpan, high) => do
      let low <- memberNumber flags lowSpan low
      let high <- memberNumber flags highSpan high
      return known.addRange ⟨low, high⟩
  | .named span name negated => do
      return known.union (<- finishSet flags span negated (.ofRanges name.ranges))
  | .shorthand span s => do
      return known.union (<- shorthandSet flags span s)
  | .property span p => refuse (propertyFault flags p) span
  | .bracket span negated body => do
      let inner <- body.addTo flags .empty
      return known.union (<- finishSet flags span negated inner)
  | .union _ items => addAllTo flags known items
  | .combined _ operator left right => do
      let s <- left.addTo flags .empty
      let t <- right.addTo flags .empty
      let t <- foldCase flags right.stretch t
      let s <- foldCase flags left.stretch s
      return known.union (operator.apply s t)

def addAllTo (flags : Flags) (known : CharSet) : List SetTree -> Except Error CharSet
  | [] => .ok known
  | item :: items => do
      let known <- item.addTo flags known
      addAllTo flags known items

end

/-!
## Parts
-/

def letterMeaning (flags : Flags) (span : Stretch) (l : Letter) : Except Error Pattern :=
  if !flags.unicode && l.isByte && decide (0x80 ≤ l.char.toNat) then refuse .noText span
  else if !flags.anyCase then .ok (.text [l.char])
  else if flags.unicode then refuse .foldingUnavailable span
  else .ok (ofSet false (CharSet.foldAscii (.ofRanges [⟨l.char.toNat, l.char.toNat⟩])))

def dotMeaning (flags : Flags) (span : Stretch) : Except Error Pattern :=
  if !flags.unicode then refuse .noText span
  else
    let left : List Range :=
      if flags.dotAll then []
      else if flags.returns then [⟨0xa, 0xa⟩, ⟨0xd, 0xd⟩]
      else [⟨0xa, 0xa⟩]
    .ok (ofSet true (CharSet.complement CharSet.characters (.ofRanges left)))

def anchorMeaning (flags : Flags) : Anchor -> Look
  | .textStart => .textStart
  | .textEnd => .textEnd
  | .lineStart => if flags.manyLines then .lineStart flags.returns else .textStart
  | .lineEnd => if flags.manyLines then .lineEnd flags.returns else .textEnd
  | .word mark => .word mark flags.unicode

/-!
## Trees
-/

mutual

/-- The meaning of a tree under flags, and the flags behind it. -/
def Tree.meaning (flags : Flags) : Tree -> Except Error (Pattern × Flags)
  | .nothing _ => .ok (.empty, flags)
  | .flags _ marks => .ok (.empty, flags.set marks)
  | .letter span l => do return (<- letterMeaning flags span l, flags)
  | .dot span => do return (<- dotMeaning flags span, flags)
  | .anchor _ a => .ok (.look (anchorMeaning flags a), flags)
  | .shorthand span s => do return (ofSet flags.unicode (<- shorthandSet flags span s), flags)
  | .property span p => refuse (propertyFault flags p) span
  | .bracket span negated body => do
      let inner <- body.addTo flags .empty
      return (ofSet flags.unicode (<- finishSet flags span negated inner), flags)
  | .repeated _ times body => do
      let (p, flags) <- body.meaning flags
      return (repeatedBy { times with greedy := times.greedy != flags.swapGreed } p, flags)
  | .group _ marks captures body => do
      let (p, _) <- body.meaning (flags.set marks)
      return (if captures then .group p else p, flags)
  | .branches _ items => do
      let (ps, flags) <- meanings flags items
      return (anyOf ps, flags)
  | .sequence _ items => do
      let (ps, flags) <- meanings flags items
      return (inRow ps, flags)

/-- The meanings of trees one after the other, and the flags behind them. -/
def meanings (flags : Flags) : List Tree -> Except Error (List Pattern × Flags)
  | [] => .ok ([], flags)
  | item :: items => do
      let (p, flags) <- item.meaning flags
      let (ps, flags) <- meanings flags items
      return (p :: ps, flags)

end

end Pattern
end LoopNest
