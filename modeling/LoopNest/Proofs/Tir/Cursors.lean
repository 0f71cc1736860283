import LoopNest.Proofs.Text.Bytes
import LoopNest.Tir.Reader
import Mathlib.Logic.Relation

/-!
# Cursors

Told step by step, a module text is read by a cursor.  It stands some bytes behind the start of the
text and sees the character there, or the end of the text; then it takes the character or stays.
Nothing bounds the number of steps.  A cursor behind the end of the text or inside a character sees
nothing and cannot go on.

There is one way back: where an instruction may start, the cursor looks ahead for the label of the
next block, and returns to where it looked from.
-/

namespace LoopNest
namespace Tir

/-!
## What has been read

The parts of a function that is still being read.  The newest item of a list stands first.
-/

/-- A function and its arguments so far, behind the functions `before` it. -/
structure OpenFunction where
  before : List FunctionDraft
  name : String
  arguments : List Variable

structure OpenBody extends OpenFunction where
  blocks : List BlockDraft

structure OpenBlock extends OpenBody where
  label : String
  instructions : List InstructionDraft

structure OpenInstruction extends OpenBlock where
  result : Option Variable
  opcode : String
  operands : List Operand

/-- Where a value is defined: among the arguments, or in front of an opcode. -/
inductive Owner where
  | argument (f : OpenFunction)
  | result (b : OpenBlock)

/-- What an identifier stands for. -/
inductive Role where
  | function (fs : List FunctionDraft)
  | value (owner : Owner)
  | type (owner : Owner) (value : String)
  | label (b : OpenBody)
  | opcode (b : OpenBlock) (result : Option Variable)
  | operand (i : OpenInstruction)
  | target (i : OpenInstruction)

/-- What is looked for behind the blanks. -/
inductive Goal where
  | function (fs : List FunctionDraft)
  | opened (fs : List FunctionDraft) (name : String)
  | argument (f : OpenFunction)
  | definition (owner : Owner)
  | separator (f : OpenFunction)
  | ending (f : OpenFunction)
  | body (f : OpenFunction)
  | block (b : OpenBody)
  | instruction (b : OpenBlock)
  | result (b : OpenBlock)
  | equals (b : OpenBlock) (v : Variable)
  | operand (i : OpenInstruction)
  | word (role : Role)

/-- How far the reading is: in the blanks in front of a goal, at the first or at a further
character of an identifier, behind the name of a definition, behind a label, in a look-ahead that
began at `start`, or at its end. -/
inductive Point where
  | seek (goal : Goal) (comment : Bool)
  | opening (role : Role)
  | further (role : Role) (front : List Char)
  | named (owner : Owner) (value : String)
  | colon (b : OpenBody) (label : String)
  | ahead (b : OpenBlock) (start : Nat)
  | done (fs : List FunctionDraft)
  | failed (fault : Fault)

/-- A position in the text and a point of the reading. -/
structure Cursor where
  pos : Nat
  point : Point

/-- What a cursor does at a character: it stays, takes the character, or goes back. -/
inductive Turn where
  | stay (p : Point)
  | take (p : Point)
  | back (start : Nat) (p : Point)

/-!
## Points

What has been read decides where the reading goes on.
-/

def Goal.point (goal : Goal) : Point :=
  .seek goal false

def OpenBody.defined (b : OpenBody) : List String :=
  b.blocks.flatMap BlockDraft.defines ++ b.arguments.reverse.map Variable.name

def OpenBlock.defined (b : OpenBlock) : List String :=
  b.instructions.flatMap InstructionDraft.defines ++ b.toOpenBody.defined

def OpenFunction.close (f : OpenFunction) (body : Option (List BlockDraft)) : Point :=
  let draft : FunctionDraft := ⟨f.name, f.arguments.reverse, body⟩
  match draft.undefinedValue? with
  | some name => .failed (.undefinedValue name)
  | none =>
      match draft.undefinedBlock? with
      | some name => .failed (.undefinedBlock name)
      | none => (Goal.function (draft :: f.before)).point

def OpenBody.close (b : OpenBody) : Point :=
  match b.blocks with
  | [] => .failed (.emptyBody b.name)
  | _ :: _ => b.toOpenFunction.close (some b.blocks.reverse)

def OpenBlock.close (b : OpenBlock) : Point :=
  (Goal.block { b.toOpenBody with blocks := ⟨b.label, b.instructions.reverse⟩ :: b.blocks }).point

def OpenBlock.push (b : OpenBlock) (i : InstructionDraft) : Point :=
  (Goal.instruction { b with instructions := i :: b.instructions }).point

def OpenInstruction.close (i : OpenInstruction) : Point :=
  match i.result with
  | some v =>
      if v.name ∈ i.toOpenBlock.defined then .failed (.redefinition v.name)
      else i.toOpenBlock.push ⟨i.result, i.opcode, i.operands.reverse⟩
  | none => i.toOpenBlock.push ⟨i.result, i.opcode, i.operands.reverse⟩

def OpenInstruction.push (i : OpenInstruction) (o : Operand) : Point :=
  (Goal.operand { i with operands := o :: i.operands }).point

def Owner.defines : Owner -> Variable -> Point
  | argument f, v =>
      if v.name ∈ f.arguments.map Variable.name then .failed (.duplicateArgument v.name)
      else (Goal.separator { f with arguments := v :: f.arguments }).point
  | result b, v => (Goal.equals b v).point

def Role.names : Role -> String -> Point
  | function fs, name =>
      if name ∈ fs.map FunctionDraft.name then .failed (.duplicateFunction name)
      else (Goal.opened fs name).point
  | value owner, name => .named owner name
  | type owner valueName, name =>
      match ValueType.ofAnnotation? name with
      | none => .failed (.unknownType name)
      | some valueType => owner.defines ⟨valueName, valueType⟩
  | label b, name => .colon b name
  | opcode b result, name => (Goal.operand ⟨b, result, name, []⟩).point
  | operand i, name => i.push (.value name)
  | target i, name => i.push (.block name)

def OpenBody.labelled (b : OpenBody) (label : String) : Point :=
  if label ∈ b.blocks.map BlockDraft.label then .failed (.duplicateBlock label)
  else (Goal.instruction ⟨b, label, []⟩).point

/-!
## Turns

The character at the position, if the text does not end there, is all that a turn depends on.
-/

/-- Only the mark can follow. -/
def Turn.mark (wanted : Char) (found : Option Char) (p : Point) : Turn :=
  if found = some wanted then .take p else .stay (.failed (.expected wanted found))

def Role.turn (role : Role) (found : Option Char) : Turn :=
  match found with
  | none => .stay (.failed (.expectedIdentifier none))
  | some c =>
      if opensIdentifier c then .take (.further role [c])
      else .stay (.failed (.expectedIdentifier (some c)))

namespace Goal

/-- Line feeds are no blanks among the operands of an instruction. -/
def lines : Goal -> Bool
  | operand _ => false
  | _ => true

def turn (pos : Nat) (found : Option Char) : Goal -> Turn
  | function fs =>
      match found with
      | none => .stay (.done fs.reverse)
      | some _ => .stay (word (.function fs)).point
  | opened fs name => .mark '(' found (argument ⟨fs, name, []⟩).point
  | argument f =>
      if found = some ')' then .take (ending f).point
      else .stay (definition (.argument f)).point
  | definition owner => .mark '%' found (.opening (.value owner))
  | separator f =>
      if found = some ',' then .take (argument f).point
      else if found = some ')' then .stay (argument f).point
      else .stay (.failed .openArguments)
  | ending f =>
      if found = some '!' then .take (f.close none) else .stay (body f).point
  | body f => .mark '{' found (block ⟨f, []⟩).point
  | block b =>
      if found = some '}' then .take b.close
      else if found = none then .stay (.failed (.unterminatedBody b.name))
      else .stay (word (.label b)).point
  | instruction b =>
      match found with
      | none => .stay b.close
      | some c =>
          if c = '}' then .stay b.close
          else if c = '%' then .stay (result b).point
          else if opensIdentifier c then .take (.ahead b pos)
          else .stay (result b).point
  | result b =>
      if found = some '%' then .stay (definition (.result b)).point
      else .stay (word (.opcode b none)).point
  | equals b v => .mark '=' found (word (.opcode b (some v))).point
  | operand i =>
      match found with
      | none => .stay i.close
      | some c =>
          if c = '%' then .take (.opening (.operand i))
          else if c = '^' then .take (.opening (.target i))
          else if c = ',' then .take (operand i).point
          else if c = '\n' ∨ c = '}' then .stay i.close
          else .stay (.failed (.unexpectedOperand c i.opcode))
  | word role => role.turn found

/-- The turn in front of a goal: blanks and comments are passed over. -/
def seek (goal : Goal) (comment : Bool) (pos : Nat) (found : Option Char) : Turn :=
  match found with
  | none => goal.turn pos none
  | some c =>
      if c = '\n' then
        if goal.lines then .take (.seek goal false) else goal.turn pos (some c)
      else if comment || Text.isBlank c then .take (.seek goal comment)
      else if c = ';' then .take (.seek goal true)
      else goal.turn pos (some c)

end Goal

namespace Cursor

/-- The turn of a cursor.  At its end the reading takes no turn. -/
def turn? (s : Cursor) (found : Option Char) : Option Turn :=
  match s.point with
  | .seek goal comment => some (goal.seek comment s.pos found)
  | .opening role => some (role.turn found)
  | .further role front =>
      match found.filter continuesIdentifier with
      | some c => some (.take (.further role (c :: front)))
      | none => some (.stay (role.names (String.ofList front.reverse)))
  | .named owner value =>
      if found = some ':' then some (.take (.opening (.type owner value)))
      else some (.stay (owner.defines ⟨value, .scalar⟩))
  | .colon b label =>
      if found = some ':' then some (.take (b.labelled label))
      else some (.stay (.failed (.expectedLabel label)))
  | .ahead b start =>
      match found.filter continuesIdentifier with
      | some _ => some (.take (.ahead b start))
      | none =>
          if found = some ':' then some (.back start b.close)
          else some (.back start (Goal.result b).point)
  | .done _ => none
  | .failed _ => none

def after (s : Cursor) (found : Option Char) : Turn -> Cursor
  | .stay p => ⟨s.pos, p⟩
  | .take p => ⟨s.pos + (found.map Char.utf8Size).getD 0, p⟩
  | .back start p => ⟨start, p⟩

/-- One step.  It needs a position that is an offset into the text, and a point with a turn. -/
inductive Step (text : String) (s : Cursor) : Cursor -> Prop where
  | turn {rest : List Char} {t : Turn} :
      Text.behind? text.toList s.pos = some rest -> s.turn? rest.head? = some t ->
      Step text s (s.after rest.head? t)

def start : Cursor :=
  ⟨0, (Goal.function []).point⟩

def Run (text : String) (s : Cursor) : Prop :=
  Relation.ReflTransGen (Step text) start s

def Halted (s : Cursor) : Prop :=
  match s.point with
  | .done _ | .failed _ => True
  | _ => False

/-- The result of the reading at its end, with the line of the position for a fault. -/
def result? (text : String) (s : Cursor) : Option (Except ReadError Module) :=
  match s.point with
  | .done fs => some (.ok (Module.ofDrafts fs))
  | .failed fault =>
      (Text.behind? text.toList s.pos).map fun rest => .error ⟨lineAt text.toList rest, fault⟩
  | _ => none

end Cursor

/-!
## Loops
-/

/-- The repetitions of the reading. -/
inductive ReadLoop where
  | functions
  | arguments
  | blocks
  | instructions
  | operands

/-- The loop that goes on, or ends, with the goal. -/
def Goal.loop? : Goal -> Option ReadLoop
  | function _ => some .functions
  | argument _ => some .arguments
  | block _ => some .blocks
  | instruction _ => some .instructions
  | operand _ => some .operands
  | _ => none

/-- The cursor is at the head of a loop. -/
def Cursor.loop? (s : Cursor) : Option ReadLoop :=
  match s.point with
  | .seek goal _ => goal.loop?
  | _ => none

/-- A step into a look-ahead, or inside one. -/
def Cursor.LooksAhead (text : String) (s t : Cursor) : Prop :=
  s.Step text t ∧ exists b start, t.point = .ahead b start

end Tir
end LoopNest
