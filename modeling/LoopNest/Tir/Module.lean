import LoopNest.Code

/-!
# Modules

A module is drafted as it is read and laid out in tables afterwards.
-/

namespace LoopNest
namespace Tir

/-!
## Drafts of functions

A draft is a function as it is written: instructions refer to values and blocks by name.
A draft becomes part of a module when each name is replaced by the place it stands for.
-/

/-- A named value and its type: an argument, or the result of an instruction. -/
structure Variable where
  name : String
  type : ValueType
  deriving DecidableEq, Repr

inductive Operand where
  | value (name : String)
  | block (name : String)
  deriving DecidableEq, Repr

structure InstructionDraft where
  result : Option Variable
  opcode : String
  operands : List Operand
  deriving DecidableEq, Repr

namespace InstructionDraft

/-- The names of the value operands, in order. -/
def values (i : InstructionDraft) : List String :=
  i.operands.filterMap fun
    | .value name => some name
    | .block _ => none

/-- The names of the block operands, in order. -/
def targets (i : InstructionDraft) : List String :=
  i.operands.filterMap fun
    | .value _ => none
    | .block name => some name

/-- The name of the result; an instruction without a result has the empty name. -/
def name (i : InstructionDraft) : String :=
  match i.result with
  | none => ""
  | some v => v.name

def type (i : InstructionDraft) : ValueType :=
  match i.result with
  | none => .void
  | some v => v.type

/-- The names that the instruction defines: none or one. -/
def defines (i : InstructionDraft) : List String :=
  i.result.toList.map Variable.name

end InstructionDraft

structure BlockDraft where
  label : String
  instructions : List InstructionDraft
  deriving DecidableEq, Repr

/-- The labels of all block operands, in order. -/
def BlockDraft.targets (b : BlockDraft) : List String :=
  b.instructions.flatMap InstructionDraft.targets

def BlockDraft.defines (b : BlockDraft) : List String :=
  b.instructions.flatMap InstructionDraft.defines

/-- A function as it is written.  A declaration has no body. -/
structure FunctionDraft where
  name : String
  arguments : List Variable
  body : Option (List BlockDraft)
  deriving DecidableEq, Repr

namespace FunctionDraft

def isDeclaration (f : FunctionDraft) : Bool :=
  f.body.isNone

def blocks (f : FunctionDraft) : List BlockDraft :=
  f.body.getD []

def instructions (f : FunctionDraft) : List InstructionDraft :=
  f.blocks.flatMap BlockDraft.instructions

def labels (f : FunctionDraft) : List String :=
  f.blocks.map BlockDraft.label

/-- The names of all values in table order: arguments, then instructions. -/
def valueNames (f : FunctionDraft) : List String :=
  f.arguments.map Variable.name ++ f.instructions.map InstructionDraft.name

/-- The first value operand that names no value of the function. -/
def undefinedValue? (f : FunctionDraft) : Option String :=
  (f.instructions.flatMap InstructionDraft.values).find? fun name =>
    !f.valueNames.contains name

/-- The first block operand that names no block of the function. -/
def undefinedBlock? (f : FunctionDraft) : Option String :=
  (f.blocks.flatMap BlockDraft.targets).find? fun name =>
    !f.labels.contains name

end FunctionDraft

/-!
## Modules

A module keeps its functions, blocks and values in flat tables.  An entry refers to a run
of another table by the span of its positions, and to a single entry by its position.

The tables of two modules are joined by shifting every position of the second one past
the tables of the first one.  So a module is the join of the modules of its functions,
and in the module of one function the position of a name is its place among the names.
-/

/-!
### Tables
-/

/-- The positions from `start` up to but excluding `stop`. -/
structure Span where
  start : Nat
  stop : Nat
  deriving DecidableEq, Repr

namespace Span

def shift (k : Nat) (s : Span) : Span :=
  ⟨s.start + k, s.stop + k⟩

def slice {alpha : Type} (s : Span) (table : List alpha) : List alpha :=
  (table.drop s.start).take (s.stop - s.start)

def positions (s : Span) : List Nat :=
  List.range' s.start (s.stop - s.start)

/-- Consecutive spans of the given sizes. -/
def consecutive (start : Nat) : (sizes : List Nat) -> List Span
  | [] => []
  | size :: sizes => ⟨start, start + size⟩ :: consecutive (start + size) sizes

end Span

structure Function where
  name : String
  isDeclaration : Bool
  blocks : Span
  arguments : Span
  deriving DecidableEq, Repr

/-- A block of a module.  Its successors are a span of the successor table, its
instructions a span of the value table. -/
structure Block where
  name : String
  successors : Span
  instructions : Span
  deriving DecidableEq, Repr

/-- Where a value comes from. -/
inductive ValueKind where
  | argument
  | instruction
  deriving DecidableEq, Repr

/-- An argument or an instruction.  The name of an instruction without a result and the
opcode of an argument are empty. -/
structure Value where
  name : String
  kind : ValueKind
  opcode : String
  type : ValueType
  operands : Span
  deriving DecidableEq, Repr

structure Module where
  functions : List Function
  blocks : List Block
  values : List Value
  valueOperands : List Nat
  blockSuccessors : List Nat
  deriving DecidableEq, Repr

/-!
### Joining modules
-/

def Function.shift (blocks values : Nat) (f : Function) : Function :=
  { f with blocks := f.blocks.shift blocks, arguments := f.arguments.shift values }

def Block.shift (successors values : Nat) (b : Block) : Block :=
  { b with
    successors := b.successors.shift successors
    instructions := b.instructions.shift values }

/-- Arguments have no operands, and their empty span stays where it is. -/
def Value.shift (operands : Nat) (v : Value) : Value :=
  match v.kind with
  | .argument => v
  | .instruction => { v with operands := v.operands.shift operands }

namespace Module

def empty : Module :=
  ⟨[], [], [], [], []⟩

/-- The tables of `m` followed by the tables of `k`. -/
def append (m k : Module) : Module where
  functions := m.functions ++ k.functions.map (Function.shift m.blocks.length m.values.length)
  blocks := m.blocks ++ k.blocks.map (Block.shift m.blockSuccessors.length m.values.length)
  values := m.values ++ k.values.map (Value.shift m.valueOperands.length)
  valueOperands := m.valueOperands ++ k.valueOperands.map (· + m.values.length)
  blockSuccessors := m.blockSuccessors ++ k.blockSuccessors.map (· + m.blocks.length)

/-!
### The module of one function
-/

def argumentValue (v : Variable) : Value :=
  ⟨v.name, .argument, "", v.type, ⟨0, 0⟩⟩

/-- The value of an instruction whose operands lie at `span`. -/
def instructionValue (i : InstructionDraft) (span : Span) : Value :=
  ⟨i.name, .instruction, i.opcode, i.type, span⟩

/-- The values of a function: its arguments, then its instructions. -/
def draftValues (f : FunctionDraft) : List Value :=
  f.arguments.map argumentValue ++
    List.zipWith instructionValue f.instructions
      (Span.consecutive 0 (f.instructions.map fun i => i.values.length))

def draftBlocks (f : FunctionDraft) : List Block :=
  List.zipWith (fun b (spans : Span × Span) => ⟨b.label, spans.1, spans.2⟩) f.blocks
    (List.zip
      (Span.consecutive 0 (f.blocks.map fun b => b.targets.length))
      (Span.consecutive f.arguments.length (f.blocks.map fun b => b.instructions.length)))

/-- The module that holds one function.  Its operands must name values and blocks of it. -/
def ofDraft (f : FunctionDraft) : Module where
  functions :=
    [⟨f.name, f.isDeclaration, ⟨0, f.blocks.length⟩, ⟨0, f.arguments.length⟩⟩]
  blocks := draftBlocks f
  values := draftValues f
  valueOperands := (f.instructions.flatMap InstructionDraft.values).map f.valueNames.idxOf
  blockSuccessors := (f.blocks.flatMap BlockDraft.targets).map f.labels.idxOf

/-- The module that holds the given functions in order. -/
def ofDrafts : List FunctionDraft -> Module
  | [] => empty
  | f :: fs => (ofDraft f).append (ofDrafts fs)

/-!
### Look-up
-/

def function? (m : Module) (name : String) : Option Nat :=
  m.functions.findIdx? fun f => f.name == name

end Module
end Tir
end LoopNest
