import LoopNest.Text.Basic
import LoopNest.Tir.Module

/-!
# Listings

A listing shows a module line by line: each function with its arguments, its blocks, and
for each block the successors, the instructions and their operands.
-/

namespace LoopNest
namespace Tir

namespace Module

def valueName (m : Module) (i : Nat) : String :=
  ((m.values[i]?).map Value.name).getD ""

def blockName (m : Module) (i : Nat) : String :=
  ((m.blocks[i]?).map Block.name).getD ""

def argumentLine (v : Value) : String :=
  "Argument " ++ v.name ++ " : " ++ v.type.display

def instructionLine (v : Value) : String :=
  if v.name.isEmpty then
    "Value (" ++ v.opcode ++ ")"
  else
    "Value " ++ v.name ++ " (" ++ v.opcode ++ ") : " ++ v.type.display

def instructionLines (m : Module) (v : Value) : List String :=
  instructionLine v :: (v.operands.slice m.valueOperands).map fun i => "Op " ++ m.valueName i

def blockLines (m : Module) (b : Block) : List String :=
  ["Block " ++ b.name]
    ++ (b.successors.slice m.blockSuccessors).map (fun i => "Succ " ++ m.blockName i)
    ++ (b.instructions.slice m.values).flatMap m.instructionLines

def functionLines (m : Module) (f : Function) : List String :=
  [(if f.isDeclaration then "Extern function " else "Function ") ++ f.name]
    ++ (f.arguments.slice m.values).map argumentLine
    ++ (f.blocks.slice m.blocks).flatMap m.blockLines

def lines (m : Module) : List String :=
  "Printing IR" :: m.functions.flatMap m.functionLines

def listing (m : Module) : String :=
  Text.ofLines m.lines

end Module
end Tir
end LoopNest
