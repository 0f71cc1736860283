import LoopNest.Decimal
import LoopNest.Ordered
import LoopNest.Text.Basic
import LoopNest.Text.Quoted

/-!
# JSON values

Values, the text that is written for them, and what can be wrong with a text that is read.

The value of a JSON text.  Numbers that are written as integers and fit 64 bits stay
integers; all others are doubles.  The members of an object that was read are sorted by
name, and of a name written twice the last value counts; an object that is to be written
keeps its members in the order given.
-/

namespace LoopNest

inductive JsonValue where
  | null
  | bool (value : Bool)
  | integer (value : Int)
  | double (value : Float)
  | text (value : String)
  | list (items : List JsonValue)
  | object (members : List (String × JsonValue))
  deriving Inhabited

namespace JsonValue

/-- The object with the given members in the order in which they are written. -/
def ofMembers (members : List (String × JsonValue)) : JsonValue :=
  .object (members.foldl (fun table entry => Ordered.put entry.1 entry.2 table) [])

def member? (members : List (String × JsonValue)) (name : String) : Option JsonValue :=
  members.lookup name

end JsonValue

namespace JsonValue

/-!
## Writing JSON

Values are written over several lines: each item of a list and each member of an object
has a line of its own, indented by two blanks for every list or object around it.  Empty
lists and objects stay on one line.
-/

/-- A code below sixteen times sixteen in two hexadecimal digits. -/
def hexPair (code : Nat) : List Char :=
  [Nat.digitChar (code / 16), Nat.digitChar (code % 16)]

/-- The form of a character inside a string. -/
def escapeChar (c : Char) : List Char :=
  if c = '"' then ['\\', '"']
  else if c = '\\' then ['\\', '\\']
  else if c = '\x08' then ['\\', 'b']
  else if c = '\x0c' then ['\\', 'f']
  else if c = '\n' then ['\\', 'n']
  else if c = '\r' then ['\\', 'r']
  else if c = '\t' then ['\\', 't']
  else if c.toNat < 0x20 then ['\\', 'u', '0', '0'] ++ hexPair c.toNat
  else [c]

def printText (text : String) : List Char :=
  '"' :: text.toList.flatMap escapeChar ++ ['"']

def newLine (depth : Nat) : List Char :=
  '\n' :: List.replicate (2 * depth) ' '

mutual

def print (depth : Nat) : JsonValue -> List Char
  | .null => ['n', 'u', 'l', 'l']
  | .bool true => ['t', 'r', 'u', 'e']
  | .bool false => ['f', 'a', 'l', 's', 'e']
  | .integer value => (toString value).toList
  | .double value => (Decimal.displayFloat value).toList
  | .text value => printText value
  | .list [] => ['[', ']']
  | .list (item :: items) =>
      '[' :: newLine (depth + 1) ++ print (depth + 1) item ++ printItems (depth + 1) items
        ++ newLine depth ++ [']']
  | .object [] => ['{', '}']
  | .object ((name, value) :: members) =>
      '{' :: newLine (depth + 1) ++ printText name ++ [':', ' '] ++ print (depth + 1) value
        ++ printMembers (depth + 1) members ++ newLine depth ++ ['}']

def printItems (depth : Nat) : List JsonValue -> List Char
  | [] => []
  | item :: items => ',' :: newLine depth ++ print depth item ++ printItems depth items

def printMembers (depth : Nat) : List (String × JsonValue) -> List Char
  | [] => []
  | (name, value) :: members =>
      ',' :: newLine depth ++ printText name ++ [':', ' '] ++ print depth value
        ++ printMembers depth members

end

def display (value : JsonValue) : String :=
  String.ofList (print 0 value)

end JsonValue

/-!
## Faults in JSON texts

A text may end too early or be misspelt; a text that is well-formed may still hold a value
of a kind that was not asked for.
-/

inductive JsonFault where
  | endOfValue
  | endOfList
  | endOfObject
  | endOfText
  | expectedValue
  | expectedWord
  | expectedColon
  | expectedListSeparator
  | expectedObjectSeparator
  | expectedName
  | trailingComma
  | trailingCharacters
  | invalidNumber
  | numberOutOfRange
  | invalidEscape
  | controlCharacter
  | loneSurrogate
  | unexpectedEndOfEscape
  | tooDeep
  deriving DecidableEq, Repr

namespace JsonFault

/-- Did the text end too early? -/
def isEnd : JsonFault -> Bool
  | endOfValue | endOfList | endOfObject | endOfText => true
  | _ => false

def message : JsonFault -> String
  | endOfValue => "EOF while parsing a value"
  | endOfList => "EOF while parsing a list"
  | endOfObject => "EOF while parsing an object"
  | endOfText => "EOF while parsing a string"
  | expectedValue => "expected value"
  | expectedWord => "expected ident"
  | expectedColon => "expected `:`"
  | expectedListSeparator => "expected `,` or `]`"
  | expectedObjectSeparator => "expected `,` or `\x7d`"
  | expectedName => "key must be a string"
  | trailingComma => "trailing comma"
  | trailingCharacters => "trailing characters"
  | invalidNumber => "invalid number"
  | numberOutOfRange => "number out of range"
  | invalidEscape => "invalid escape"
  | controlCharacter =>
      "control character (\\u0000-\\u001F) found while parsing a string"
  | loneSurrogate => "lone leading surrogate in hex escape"
  | unexpectedEndOfEscape => "unexpected end of hex escape"
  | tooDeep => "recursion limit exceeded"

end JsonFault

/-!
### Where reading stops
-/

/-- A fault with the number of bytes of the text that are left behind its place. -/
structure JsonStop where
  fault : JsonFault
  left : Nat
  deriving DecidableEq, Repr

namespace JsonFault

def before (fault : JsonFault) (rest : List Char) : JsonStop :=
  ⟨fault, Text.byteCount rest⟩

/-- Stops a number of bytes further on, at the end of the text if it has no more. -/
def within (fault : JsonFault) (rest : List Char) (bytes : Nat) : JsonStop :=
  ⟨fault, Text.byteCount rest - bytes⟩

/-- Stops behind the first byte of what is left to read, which is out of place there. -/
def on (fault : JsonFault) (rest : List Char) : JsonStop :=
  fault.within rest 1

end JsonFault

structure JsonError where
  fault : JsonFault
  place : Text.Place
  deriving DecidableEq, Repr

def JsonStop.inText (stop : JsonStop) (cs : List Char) : JsonError :=
  ⟨stop.fault, .ofOffset cs (Text.byteCount cs - stop.left)⟩

def JsonError.message (e : JsonError) : String :=
  e.fault.message ++ " at " ++ e.place.display

/-- What a place in a JSON value can ask for. -/
inductive JsonKind where
  | word32
  | word64
  | boolean
  | text
  | list
  | object
  deriving DecidableEq, Repr

def JsonKind.name : JsonKind -> String
  | word32 => "u32"
  | word64 => "usize"
  | boolean => "a boolean"
  | text => "a string"
  | list => "a sequence"
  | object => "a map"

/-- How a value is named in a complaint. -/
def JsonValue.describe : JsonValue -> String
  | .null => "null"
  | .bool value => "boolean `" ++ toString value ++ "`"
  | .integer value => "integer `" ++ toString value ++ "`"
  | .double value => "floating point `" ++ Decimal.displayFloat value ++ "`"
  | .text value => "string " ++ Text.quoteText value
  | .list _ => "sequence"
  | .object _ => "map"

/-- A value that is not what was asked for: an integer out of range, or a value of another
kind. -/
inductive JsonMismatch where
  | outOfRange (value : Int) (asked : JsonKind)
  | wrongKind (found : JsonValue) (asked : JsonKind)

def JsonMismatch.message : JsonMismatch -> String
  | outOfRange value asked =>
      "invalid value: integer `" ++ toString value ++ "`, expected " ++ asked.name
  | wrongKind found asked =>
      "invalid type: " ++ found.describe ++ ", expected " ++ asked.name

end LoopNest
