/-!
# Sets of characters

Sets of code points as ranges, and the bytes of their UTF-8 forms.

A set is a list of disjoint closed ranges of code points in increasing order.  It also
remembers whether it is known to hold with every letter the same letter in the other case.
-/

namespace LoopNest
namespace Pattern

/-- A closed range of code points. -/
structure Range where
  low : Nat
  high : Nat
  deriving DecidableEq, Repr

structure CharSet where
  ranges : List Range
  folded : Bool
  deriving DecidableEq, Repr

namespace CharSet

/-!
## Ranges
-/

def insertRange (r : Range) : List Range -> List Range
  | [] => [r]
  | s :: more => if r.low ≤ s.low then r :: s :: more else s :: insertRange r more

/-- Joins ranges in increasing order that overlap or touch, the first one given apart. -/
def joinRanges (first : Range) : List Range -> List Range
  | [] => [first]
  | r :: more =>
      if r.low ≤ first.high + 1 then joinRanges ⟨first.low, max first.high r.high⟩ more
      else first :: joinRanges r more

/-- The same code points in disjoint ranges in increasing order. -/
def arrange (ranges : List Range) : List Range :=
  match ranges.foldr insertRange [] with
  | [] => []
  | first :: more => joinRanges first more

def overlap? (r s : Range) : Option Range :=
  let low := max r.low s.low
  let high := min r.high s.high
  if low ≤ high then some ⟨low, high⟩ else none

/-- The code point of the character before another one.  Between the characters there is one
gap. -/
def before (n : Nat) : Nat :=
  if n = 0xe000 then 0xd7ff else n - 1

/-- The code point of the character behind another one. -/
def behind (n : Nat) : Nat :=
  if n = 0xd7ff then 0xe000 else n + 1

/-- What is left of a range without the code points of another one. -/
def cut (r s : Range) : List Range :=
  match overlap? r s with
  | none => [r]
  | some common =>
      (if r.low < common.low then [⟨r.low, before common.low⟩] else [])
        ++ if common.high < r.high then [⟨behind common.high, r.high⟩] else []

/-- The ranges without the code points of others. -/
def without (ranges : List Range) (others : List Range) : List Range :=
  others.foldl (fun left s => left.flatMap fun r => cut r s) ranges

/-!
## Sets
-/

def empty : CharSet :=
  ⟨[], true⟩

def ofRanges (ranges : List Range) : CharSet :=
  ⟨arrange ranges, ranges.isEmpty⟩

def isEmpty (s : CharSet) : Bool :=
  s.ranges.isEmpty

/-- Is every member an ASCII character? -/
def isAscii (s : CharSet) : Bool :=
  s.ranges.all fun r => decide (r.high < 0x80)

def holds (s : CharSet) (c : Char) : Bool :=
  s.ranges.any fun r => decide (r.low ≤ c.toNat) && decide (c.toNat ≤ r.high)

def addRange (s : CharSet) (r : Range) : CharSet :=
  ⟨arrange (r :: s.ranges), false⟩

def union (s t : CharSet) : CharSet :=
  if t.isEmpty || s.ranges == t.ranges then s
  else ⟨arrange (s.ranges ++ t.ranges), s.folded && t.folded⟩

def inter (s t : CharSet) : CharSet :=
  if s.isEmpty then s
  else if t.isEmpty then empty
  else
    ⟨arrange (s.ranges.flatMap fun r => t.ranges.filterMap (overlap? r)), s.folded && t.folded⟩

def diff (s t : CharSet) : CharSet :=
  if s.isEmpty || t.isEmpty then s
  else ⟨arrange (without s.ranges t.ranges), s.folded && t.folded⟩

def symmDiff (s t : CharSet) : CharSet :=
  (s.union t).diff (s.inter t)

/-- The code points of all characters.  Those in the gap do not count. -/
def characters : List Range :=
  [⟨0, 0x10ffff⟩]

/-- The values of all bytes. -/
def bytes : List Range :=
  [⟨0, 0xff⟩]

def complement (everything : List Range) (s : CharSet) : CharSet :=
  if s.isEmpty then ⟨everything, true⟩ else ⟨arrange (without everything s.ranges), s.folded⟩

/-- The ASCII letters of a range in the other case. -/
def otherCase (r : Range) : List Range :=
  ((overlap? r ⟨0x61, 0x7a⟩).map fun s => ⟨s.low - 32, s.high - 32⟩).toList
    ++ ((overlap? r ⟨0x41, 0x5a⟩).map fun s => ⟨s.low + 32, s.high + 32⟩).toList

/-- The set with its ASCII letters in both cases. -/
def foldAscii (s : CharSet) : CharSet :=
  if s.folded then s else ⟨arrange (s.ranges ++ s.ranges.flatMap otherCase), true⟩

def only? (s : CharSet) : Option Char :=
  match s.ranges with
  | [r] => if h : r.low = r.high ∧ r.low.isValidChar then some (Char.ofNatAux r.low h.2) else none
  | _ => none

/-!
## Named sets
-/

inductive Name where
  | alnum
  | alpha
  | ascii
  | blank
  | cntrl
  | digit
  | graph
  | lower
  | print
  | punct
  | space
  | upper
  | word
  | xdigit
  deriving DecidableEq, Repr

namespace Name

/-- All names with their spelling. -/
def all : List (String × Name) :=
  [ ("alnum", alnum), ("alpha", alpha), ("ascii", ascii), ("blank", blank), ("cntrl", cntrl),
    ("digit", digit), ("graph", graph), ("lower", lower), ("print", print), ("punct", punct),
    ("space", space), ("upper", upper), ("word", word), ("xdigit", xdigit) ]

def ofText? (text : String) : Option Name :=
  all.lookup text

def ranges : Name -> List Range
  | alnum => [⟨0x30, 0x39⟩, ⟨0x41, 0x5a⟩, ⟨0x61, 0x7a⟩]
  | alpha => [⟨0x41, 0x5a⟩, ⟨0x61, 0x7a⟩]
  | ascii => [⟨0x00, 0x7f⟩]
  | blank => [⟨0x09, 0x09⟩, ⟨0x20, 0x20⟩]
  | cntrl => [⟨0x00, 0x1f⟩, ⟨0x7f, 0x7f⟩]
  | digit => [⟨0x30, 0x39⟩]
  | graph => [⟨0x21, 0x7e⟩]
  | lower => [⟨0x61, 0x7a⟩]
  | print => [⟨0x20, 0x7e⟩]
  | punct => [⟨0x21, 0x2f⟩, ⟨0x3a, 0x40⟩, ⟨0x5b, 0x60⟩, ⟨0x7b, 0x7e⟩]
  | space => [⟨0x09, 0x0d⟩, ⟨0x20, 0x20⟩]
  | upper => [⟨0x41, 0x5a⟩]
  | word => [⟨0x30, 0x39⟩, ⟨0x41, 0x5a⟩, ⟨0x5f, 0x5f⟩, ⟨0x61, 0x7a⟩]
  | xdigit => [⟨0x30, 0x39⟩, ⟨0x41, 0x46⟩, ⟨0x61, 0x66⟩]

end Name
end CharSet

/-!
## Byte forms

A character is written as one to four bytes.  A byte form is a row of ranges of bytes: it
stands for the characters whose bytes lie in these ranges, one after the other.  Every set of
characters is the union of some byte forms.
-/

/-- Ranges of bytes in a row. -/
abbrev ByteForm :=
  List Range

/-!
### Bytes
-/

def bytesOf (n : Nat) : List Nat :=
  if n < 0x80 then [n]
  else if n < 0x800 then [0xc0 + n / 64, 0x80 + n % 64]
  else if n < 0x10000 then [0xe0 + n / 4096, 0x80 + n / 64 % 64, 0x80 + n % 64]
  else [0xf0 + n / 262144, 0x80 + n / 4096 % 64, 0x80 + n / 64 % 64, 0x80 + n % 64]

/-!
### Parts of ranges
-/

/-- The range from a number to the one before another number, if there is any in it. -/
def between (low stop : Nat) : List Range :=
  if low < stop then [⟨low, stop - 1⟩] else []

/-- A range cut into a part of its first block, whole blocks and a part of its last block.
A range inside of one block stays whole. -/
def cutAtBlocks (block : Nat) (r : Range) : List Range :=
  if r.low / block = r.high / block then [r]
  else
    let low := (r.low + block - 1) / block * block
    let high := (r.high + 1) / block * block
    between r.low low ++ between low high ++ between high (r.high + 1)

/-- The code points that are written with several bytes, by their number.  Those in the gap
are no characters. -/
def wideRanges : List Range :=
  [⟨0x80, 0x7ff⟩, ⟨0x800, 0xd7ff⟩, ⟨0xe000, 0xffff⟩, ⟨0x10000, 0x10ffff⟩]

/-- The byte form of a range whose bytes differ in the last places only. -/
def formOf (r : Range) : ByteForm :=
  List.zipWith Range.mk (bytesOf r.low) (bytesOf r.high)

/-- The byte forms of a range of code points. -/
def formsOfRange (r : Range) : List ByteForm :=
  let wide := (wideRanges.filterMap (CharSet.overlap? r)).flatMap (cutAtBlocks 64)
  ((CharSet.overlap? r ⟨0, 0x7f⟩).toList ++
    (wide.flatMap (cutAtBlocks 4096)).flatMap (cutAtBlocks 262144)).map formOf

def CharSet.forms (s : CharSet) : List ByteForm :=
  s.ranges.flatMap formsOfRange

/-!
### Trees
-/

/-- Byte forms as a tree: the ranges of the first byte, and for each of them what follows it.
The end of a form is a leaf. -/
inductive ByteTree where
  | leaf
  | node (ranges : List Range) (behind : List ByteTree)
  deriving Repr

/-- The tree of byte forms that have at most `depth` bytes.  Forms next to each other share
the ranges that they have in common at their start. -/
def ByteTree.ofForms : (depth : Nat) -> List ByteForm -> ByteTree
  | 0, _ => leaf
  | depth + 1, forms =>
      if forms.all List.isEmpty then leaf
      else
        let groups := forms.splitBy fun f g => f.head? == g.head?
        node (groups.filterMap fun group => group.head?.bind List.head?)
          (groups.map fun group => ofForms depth (group.map List.tail))

def CharSet.tree (s : CharSet) : ByteTree :=
  .ofForms 4 s.forms

end Pattern
end LoopNest
