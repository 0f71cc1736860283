import LoopNest.Json.Reader

/-!
# The grammar of JSON texts

The grammar is given by rules and without a reader.  Each rule says which characters a part of a
document is made of.  A document is first taken apart into a tree, which keeps the digits of its
numbers and all members of its objects; the value of a tree is found afterwards.  A tree has no
value if it is nested too deeply or one of its numbers is too large, so there are documents
without a value.
-/

namespace LoopNest

inductive JsonTree where
  | null
  | bool (value : Bool)
  | number (numeral : Numeral)
  | text (value : String)
  | list (items : List JsonTree)
  | object (members : List (String × JsonTree))

namespace JsonTree

/-- The value of a tree with at most `depth` lists and objects around a scalar. -/
def value? : (depth : Nat) -> JsonTree -> Option JsonValue
  | _, .null => some .null
  | _, .bool value => some (.bool value)
  | _, .number numeral => numeral.value?
  | _, .text value => some (.text value)
  | 0, .list _ => none
  | depth + 1, .list items => (items.mapM (value? depth)).map .list
  | 0, .object _ => none
  | depth + 1, .object members =>
      (members.mapM fun m => (value? depth m.2).map fun value => (m.1, value)).map .ofMembers

def memberValue? (depth : Nat) (m : String × JsonTree) : Option (String × JsonValue) :=
  (m.2.value? depth).map fun value => (m.1, value)

/-- Of the members with one name the one that is written last. -/
def last? (members : List (String × JsonTree)) (name : String) : Option JsonTree :=
  members.reverse.lookup name

end JsonTree

/-!
## Numbers
-/

namespace Numeral

def DigitsText (cs : List Char) : Prop :=
  cs ≠ [] ∧ forall c, c ∈ cs -> c.isDigit = true

/-- The digits before a point.  A leading zero stands alone. -/
def WholeText (cs : List Char) : Prop :=
  DigitsText cs ∧ (cs.head? = some '0' -> cs = ['0'])

inductive FractionText : List Char -> Option (List Char) -> Prop where
  | none : FractionText [] none
  | some {digits : List Char} : DigitsText digits -> FractionText ('.' :: digits) (some digits)

inductive ExponentText : List Char -> Option (Bool × List Char) -> Prop where
  | none : ExponentText [] none
  | plain {mark : Char} {digits : List Char} :
      mark = 'e' ∨ mark = 'E' -> DigitsText digits ->
      ExponentText (mark :: digits) (some (false, digits))
  | plus {mark : Char} {digits : List Char} :
      mark = 'e' ∨ mark = 'E' -> DigitsText digits ->
      ExponentText (mark :: '+' :: digits) (some (false, digits))
  | minus {mark : Char} {digits : List Char} :
      mark = 'e' ∨ mark = 'E' -> DigitsText digits ->
      ExponentText (mark :: '-' :: digits) (some (true, digits))

inductive UnsignedText : List Char -> Numeral -> Prop where
  | mk {negative : Bool} {whole front back : List Char} {fraction : Option (List Char)}
      {exponent : Option (Bool × List Char)} :
      WholeText whole -> FractionText front fraction -> ExponentText back exponent ->
      UnsignedText (whole ++ (front ++ back)) ⟨negative, whole, fraction, exponent⟩

/-- A numeral.  Of the signs only minus may stand in front of it. -/
inductive NumeralText : List Char -> Numeral -> Prop where
  | unsigned {cs : List Char} {n : Numeral} :
      n.negative = false -> UnsignedText cs n -> NumeralText cs n
  | negative {cs : List Char} {n : Numeral} :
      n.negative = true -> UnsignedText cs n -> NumeralText ('-' :: cs) n

end Numeral

/-!
## Strings
-/

namespace JsonText

/-- The letters that may stand behind a backslash, each with the character that is meant. -/
def escapes : List (Char × Char) :=
  [ ('"', '"'), ('\\', '\\'), ('/', '/'), ('b', '\x08'), ('f', '\x0c'), ('n', '\n'), ('r', '\r'),
    ('t', '\t') ]

/-- An escape behind its backslash, and the character that it stands for.  A unit of a surrogate
pair does not stand alone. -/
inductive EscapeText : List Char -> Char -> Prop where
  | letter {letter c : Char} : (letter, c) ∈ escapes -> EscapeText [letter] c
  | unit {a b c d : Char} {value : Nat} :
      hexValue? a b c d = some value -> isLeading value = false -> isTrailing value = false ->
      EscapeText ['u', a, b, c, d] (Char.ofNat value)
  | pair {a b c d a' b' c' d' : Char} {leading trailing : Nat} :
      hexValue? a b c d = some leading -> isLeading leading = true ->
      hexValue? a' b' c' d' = some trailing -> isTrailing trailing = true ->
      EscapeText ['u', a, b, c, d, '\\', 'u', a', b', c', d'] (pair leading trailing)

/-- The characters between the quotes of a string. -/
inductive CharactersText : List Char -> List Char -> Prop where
  | nil : CharactersText [] []
  | plain {c : Char} {text cs : List Char} :
      c ≠ '"' -> c ≠ '\\' -> 0x20 ≤ c.toNat -> CharactersText text cs ->
      CharactersText (c :: text) (c :: cs)
  | escape {front text cs : List Char} {c : Char} :
      EscapeText front c -> CharactersText text cs ->
      CharactersText ('\\' :: (front ++ text)) (c :: cs)

inductive StringText : List Char -> String -> Prop where
  | mk {text cs : List Char} :
      CharactersText text cs -> StringText ('"' :: (text ++ ['"'])) (String.ofList cs)

end JsonText

/-!
## Values
-/

namespace JsonTree

/-- Characters that may stand between the parts of a document. -/
def Blanks (cs : List Char) : Prop :=
  forall c, c ∈ cs -> JsonReader.isBlank c = true

theorem blanks_nil : Blanks [] := by
  intro c hc
  cases hc

/-- Items with commas between them, at least one. -/
inductive Separated {alpha : Type} (Item : List Char -> alpha -> Prop) :
    List Char -> List alpha -> Prop where
  | one {cs : List Char} {x : alpha} : Item cs x -> Separated Item cs [x]
  | more {cs text : List Char} {x : alpha} {xs : List alpha} :
      Item cs x -> Separated Item text xs -> Separated Item (cs ++ ',' :: text) (x :: xs)

inductive ElementText (Value : List Char -> JsonTree -> Prop) : List Char -> JsonTree -> Prop where
  | mk {before text after : List Char} {tree : JsonTree} :
      Blanks before -> Value text tree -> Blanks after ->
      ElementText Value (before ++ (text ++ after)) tree

inductive MemberText (Value : List Char -> JsonTree -> Prop) :
    List Char -> String × JsonTree -> Prop where
  | mk {before text after value : List Char} {name : String} {tree : JsonTree} :
      Blanks before -> JsonText.StringText text name -> Blanks after ->
      ElementText Value value tree ->
      MemberText Value (before ++ (text ++ (after ++ ':' :: value))) (name, tree)

inductive ValueText : List Char -> JsonTree -> Prop where
  | null : ValueText ['n', 'u', 'l', 'l'] .null
  | true : ValueText ['t', 'r', 'u', 'e'] (.bool true)
  | false : ValueText ['f', 'a', 'l', 's', 'e'] (.bool false)
  | number {cs : List Char} {n : Numeral} : Numeral.NumeralText cs n -> ValueText cs (.number n)
  | text {cs : List Char} {value : String} :
      JsonText.StringText cs value -> ValueText cs (.text value)
  | emptyList {cs : List Char} : Blanks cs -> ValueText ('[' :: (cs ++ [']'])) (.list [])
  | list {cs : List Char} {items : List JsonTree} :
      Separated (ElementText ValueText) cs items -> ValueText ('[' :: (cs ++ [']'])) (.list items)
  | emptyObject {cs : List Char} : Blanks cs -> ValueText ('{' :: (cs ++ ['}'])) (.object [])
  | object {cs : List Char} {members : List (String × JsonTree)} :
      Separated (MemberText ValueText) cs members ->
      ValueText ('{' :: (cs ++ ['}'])) (.object members)

def DocumentText (cs : List Char) (tree : JsonTree) : Prop :=
  ElementText ValueText cs tree

end JsonTree
end LoopNest
