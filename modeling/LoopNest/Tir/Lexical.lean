import LoopNest.Text.Basic
import LoopNest.Text.Classes
import LoopNest.Text.Quoted
import LoopNest.Tir.Module

/-!
# The parts of a module text

What can be wrong with a text, and how its words, names and types are read.
-/

namespace LoopNest
namespace Tir

/-!
## Faults in a module text

A reader stops at the first fault.  Each fault names its cause; the wording is given by
one function, and the line is counted from the text that was read before the fault.
-/

inductive Fault where
  | expected (wanted : Char) (found : Option Char)
  | expectedIdentifier (found : Option Char)
  | unknownType (name : String)
  | duplicateFunction (name : String)
  | duplicateArgument (name : String)
  | openArguments
  | unterminatedBody (function : String)
  | emptyBody (function : String)
  | expectedLabel (found : String)
  | duplicateBlock (name : String)
  | unexpectedOperand (found : Char) (opcode : String)
  | redefinition (name : String)
  | undefinedValue (name : String)
  | undefinedBlock (name : String)
  deriving DecidableEq, Repr

namespace Fault

def displayFound : Option Char -> String
  | none => "None"
  | some c => "Some(" ++ Text.quoteChar c ++ ")"

def message : Fault -> String
  | expected wanted found =>
      "Expected '" ++ wanted.toString ++ "' but found " ++ displayFound found
  | expectedIdentifier none => "Expected identifier but found EOF"
  | expectedIdentifier (some c) => "Expected identifier but found '" ++ c.toString ++ "'"
  | unknownType name => "Unknown type '" ++ name ++ "'"
  | duplicateFunction name => "Duplicate function definition: '" ++ name ++ "'"
  | duplicateArgument name => "Duplicate argument '%" ++ name ++ "'"
  | openArguments => "Expected ',' or ')' in argument list"
  | unterminatedBody function => "Unterminated body of '" ++ function ++ "'"
  | emptyBody function => "Function '" ++ function ++ "' has no blocks"
  | expectedLabel found => "Expected block label but found '" ++ found ++ "'"
  | duplicateBlock name => "Duplicate block '" ++ name ++ "'"
  | unexpectedOperand found opcode =>
      "Unexpected '" ++ found.toString ++ "' in operands of '" ++ opcode ++ "'"
  | redefinition name => "Redefinition of '%" ++ name ++ "'"
  | undefinedValue name => "Undefined value '%" ++ name ++ "'"
  | undefinedBlock name => "Undefined block '^" ++ name ++ "'"

end Fault

/-- A fault and the line on which reading stopped. -/
structure ReadError where
  line : Nat
  fault : Fault
  deriving DecidableEq, Repr

def ReadError.message (e : ReadError) : String :=
  "line " ++ toString e.line ++ ": " ++ e.fault.message

/-!
### Attempts

A reader takes the rest of a text.  It answers with what it read and what is left, or
with a fault and what was left when the fault was found.
-/

/-- The answer of a reader: the fault carries the text that was left. -/
abbrev Attempt (alpha : Type) :=
  Except (Fault × List Char) alpha

/-- The line of the first character that is left, where `rest` is the end of `text`. -/
def lineAt (text rest : List Char) : Nat :=
  text.count '\n' - rest.count '\n' + 1

/-!
## Words of a module text

Blanks and comments separate words.  A comment runs from a semicolon to just before the
next line feed.  Line feeds are blanks between the parts of a function, but they end an
instruction, so they are only dropped on demand.
-/

/-!
### Blanks and comments
-/

/-- Drops blanks and comments from the front of a text.  `lines` says whether line feeds are
dropped too, `comment` whether the front of the text is inside a comment. -/
def skipFrom (lines : Bool) : (comment : Bool) -> List Char -> List Char
  | _, [] => []
  | comment, c :: cs =>
      if c = '\n' then
        if lines then skipFrom lines false cs else c :: cs
      else if comment || Text.isBlank c then skipFrom lines comment cs
      else if c = ';' then skipFrom lines true cs
      else c :: cs

def skip : List Char -> List Char :=
  skipFrom true false

/-- Drops blanks and comments up to the end of the line. -/
def skipInline : List Char -> List Char :=
  skipFrom false false

theorem skipFrom_length_le (lines comment : Bool) (cs : List Char) :
    (skipFrom lines comment cs).length ≤ cs.length := by
  induction cs generalizing comment with
  | nil => simp [skipFrom]
  | cons c cs ih =>
      have hfalse := ih false
      have htrue := ih true
      have hsame := ih comment
      unfold skipFrom
      repeat' split
      all_goals try simp only [List.length_cons]
      all_goals omega

theorem skip_length_le (cs : List Char) : (skip cs).length ≤ cs.length :=
  skipFrom_length_le true false cs

theorem skipInline_length_le (cs : List Char) : (skipInline cs).length ≤ cs.length :=
  skipFrom_length_le false false cs

/-!
### Identifiers
-/

def opensIdentifier (c : Char) : Bool :=
  Text.isLetter c || c == '_'

def continuesIdentifier (c : Char) : Bool :=
  Text.isLetter c || Text.isNumeral c || c == '_' || c == '.'

def identifier : List Char -> Attempt (String × List Char)
  | [] => .error (.expectedIdentifier none, [])
  | c :: cs =>
      if opensIdentifier c then
        .ok (String.ofList (c :: cs.takeWhile continuesIdentifier),
          cs.dropWhile continuesIdentifier)
      else
        .error (.expectedIdentifier (some c), c :: cs)

/-- The identifier after the blanks at the front of a text. -/
def word (cs : List Char) : Attempt (String × List Char) :=
  identifier (skip cs)

theorem identifier_length_lt {cs rest : List Char} {name : String}
    (h : identifier cs = .ok (name, rest)) : rest.length < cs.length := by
  cases cs with
  | nil => simp [identifier] at h
  | cons c cs =>
      rw [identifier] at h
      split at h
      · simp only [Except.ok.injEq, Prod.mk.injEq] at h
        have hdrop := (List.dropWhile_sublist (l := cs) continuesIdentifier).length_le
        rw [h.2] at hdrop
        simp only [List.length_cons]
        omega
      · simp at h

theorem word_length_lt {cs rest : List Char} {name : String}
    (h : word cs = .ok (name, rest)) : rest.length < cs.length := by
  have hskip := skip_length_le cs
  have hname := identifier_length_lt h
  omega

/-!
### Marks and definitions
-/

/-- The text after the mark that follows the blanks at the front of a text. -/
def expect (mark : Char) (cs : List Char) : Attempt (List Char) :=
  match skip cs with
  | [] => .error (.expected mark none, [])
  | c :: rest => if c = mark then .ok rest else .error (.expected mark (some c), c :: rest)

theorem expect_length_lt {mark : Char} {cs rest : List Char}
    (h : expect mark cs = .ok rest) : rest.length < cs.length := by
  have hskip := skip_length_le cs
  unfold expect at h
  split at h
  · simp at h
  · rename_i c front heq
    rw [heq, List.length_cons] at hskip
    split at h
    · simp only [Except.ok.injEq] at h
      subst h
      omega
    · simp at h

/-- The annotation of a definition whose name has been read.  Without one the value is a
scalar. -/
def typing (name : String) (cs : List Char) : Attempt (Variable × List Char) :=
  match cs with
  | ':' :: rest =>
      match identifier rest with
      | .error e => .error e
      | .ok (text, rest) =>
          match ValueType.ofAnnotation? text with
          | none => .error (.unknownType text, rest)
          | some type => .ok (⟨name, type⟩, rest)
  | rest => .ok (⟨name, .scalar⟩, rest)

/-- A percent sign, a name and an optional annotation. -/
def definition (cs : List Char) : Attempt (Variable × List Char) := do
  let rest <- expect '%' cs
  let (name, rest) <- identifier rest
  typing name rest

theorem typing_length_le {name : String} {cs rest : List Char} {v : Variable}
    (h : typing name cs = .ok (v, rest)) : rest.length ≤ cs.length := by
  unfold typing at h
  split at h
  · split at h
    · simp at h
    · rename_i hname
      have hlt := identifier_length_lt hname
      split at h
      · simp at h
      · simp only [Except.ok.injEq, Prod.mk.injEq] at h
        rw [← h.2, List.length_cons]
        omega
  · simp only [Except.ok.injEq, Prod.mk.injEq] at h
    exact Nat.le_of_eq (congrArg List.length h.2.symm)

theorem definition_length_lt {cs rest : List Char} {v : Variable}
    (h : definition cs = .ok (v, rest)) : rest.length < cs.length := by
  simp only [definition, bind_eq_ok] at h
  obtain ⟨afterMark, hmark, ⟨name, afterName⟩, hname, h⟩ := h
  have h1 := expect_length_lt hmark
  have h2 := identifier_length_lt hname
  have h3 : rest.length ≤ afterName.length := typing_length_le h
  omega

end Tir
end LoopNest
