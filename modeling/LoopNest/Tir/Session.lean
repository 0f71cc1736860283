import LoopNest.Analysis
import LoopNest.Code
import LoopNest.Notice
import LoopNest.Tir.Module

/-!
# Sessions

The functions of a module as graphs and code, and a session that looks at one after another.
-/

namespace LoopNest
namespace Tir
namespace Module

/-!
## Functions of a module as graphs and code

The blocks of all functions of a module are numbered together.  A function with a body
is a graph on these blocks that is entered at its first block.
-/

/-- The number of blocks of all functions. -/
abbrev blockCount (m : Module) : Nat :=
  m.blocks.length

abbrev BlockIn (m : Module) : Type :=
  Fin m.blockCount

def block? (m : Module) (i : Nat) : Option m.BlockIn :=
  if h : i < m.blockCount then some ⟨i, h⟩ else none

def successors (m : Module) (b : m.BlockIn) : List m.BlockIn :=
  (m.blocks[b].successors.slice m.blockSuccessors).filterMap m.block?

/-- The blocks of a function in layout order. -/
def blocksOf (m : Module) (f : Function) : List m.BlockIn :=
  f.blocks.positions.filterMap m.block?

def graph? (m : Module) (f : Function) : Option (FlowGraph m.blockCount) :=
  match m.blocksOf f with
  | [] => none
  | entry :: _ => some ⟨entry, m.successors⟩

def operandTypes (m : Module) (v : Value) : List ValueType :=
  (v.operands.slice m.valueOperands).filterMap fun i => (m.values[i]?).map Value.type

/-- An instruction of the module without its place in the tables. -/
def instruction (m : Module) (v : Value) : Instruction :=
  ⟨v.opcode, v.type, m.operandTypes v⟩

/-- The code of the blocks of a module. -/
def code (m : Module) : Code m.BlockIn where
  blockName b := m.blocks[b].name
  instructions b := (m.blocks[b].instructions.slice m.values).map m.instruction

end Module

/-!
## Sessions

A session looks at one module, a function at a time.  It remembers the current function,
the analysis that was made last and its forest.  A step that fails still moves to the
function that was asked for and drops the order of the old analysis, so that no question
is answered from a function that is no longer current.
-/

/-- Why a step of a session fails. -/
inductive SessionFault where
  | noFunction
  | noBody
  | noBlock
  | noValue
  | noLoop
  deriving DecidableEq, Repr

/-- The state of a session. -/
structure Session (m : Module) where
  current : Nat
  analysis : Analysis m.blockCount
  forest : LoopForest m.BlockIn

namespace Session

variable {m : Module}

/-- A session at its start looks at the first function and has analyzed nothing. -/
def start (m : Module) : Session m :=
  ⟨0, .empty, .empty⟩

/-!
### Steps
-/

/-- Moves to a function, whether it exists or not, and says whether it has a body. -/
def moveTo (s : Session m) (f : Nat) : Except SessionFault Bool × Session m :=
  let moved := { s with current := f }
  match m.functions[f]? with
  | none => (.error .noFunction, moved)
  | some function => (.ok (!function.isDeclaration), moved)

/-- Drops the order of the last analysis; its tree and its forest stay. -/
def dropOrder (s : Session m) : Session m :=
  { s with analysis := { s.analysis with order := [] } }

/-- Analyzes the current function.  Nothing but the order is dropped if it has no body. -/
def analyze (s : Session m) : Except SessionFault Unit × Session m :=
  match m.functions[s.current]? with
  | none => (.error .noFunction, s.dropOrder)
  | some function =>
      match m.graph? function with
      | none => (.error .noBody, s.dropOrder)
      | some g => (.ok (), { s with analysis := g.analyze, forest := g.forest })

/-- Forgets the last analysis, moves to a function and analyzes it.  A declaration has no
loops. -/
def switch (s : Session m) (f : Nat) : Except SessionFault Unit × Session m :=
  match moveTo { s with analysis := .empty } f with
  | (.error fault, moved) => (.error fault, moved)
  | (.ok false, moved) => (.ok (), { moved with forest := .empty })
  | (.ok true, moved) => moved.analyze

/-- The notices of the analysis that the session remembers, if it remembers one. -/
def notices (s : Session m) (label : m.BlockIn -> String) : List Notice :=
  if s.analysis.order.isEmpty then [] else s.analysis.notices label s.forest

/-!
### Questions
-/

def function (m : Module) (f : Nat) : Except SessionFault Function :=
  match m.functions[f]? with
  | none => .error .noFunction
  | some function => .ok function

def value (m : Module) (i : Nat) : Except SessionFault Value :=
  match m.values[i]? with
  | none => .error .noValue
  | some value => .ok value

def block (m : Module) (i : Nat) : Except SessionFault m.BlockIn :=
  match m.block? i with
  | none => .error .noBlock
  | some b => .ok b

/-- The blocks of the current function in layout order. -/
def layout (s : Session m) : Except SessionFault (List m.BlockIn) :=
  (function m s.current).map m.blocksOf

def entry (s : Session m) : Except SessionFault m.BlockIn := do
  match <- s.layout with
  | [] => .error .noBody
  | b :: _ => .ok b

/-- A loop of the last forest. -/
def loop (s : Session m) (id : LoopId) : Except SessionFault (Loop m.BlockIn) :=
  match s.forest.get? id with
  | none => .error .noLoop
  | some l => .ok l

/-- The first vector use in the blocks at the given positions.  Blocks behind it are not
looked at. -/
def vectorUse? (m : Module) : List Nat -> Except SessionFault (Option VectorUse)
  | [] => .ok none
  | i :: is => do
      let b <- block m i
      match m.code.vectorUseIn? b with
      | some use => .ok (some use)
      | none => vectorUse? m is

end Session

end Tir
end LoopNest
