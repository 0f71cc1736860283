import LoopNest.Decimal

/-!
# Code

The types of values, and the instructions of the blocks of a function.
-/

namespace LoopNest

/-!
## Value types

A value type says what a value is made of, as far as loop selection can tell.  Only the
distinction between vectors and everything else decides how a loop is classified; the
other forms are kept apart so that listings stay readable.

A module text writes types as annotations: an element name is a scalar, and the letter
`v`, a lane count and an element name is a vector.
-/

/-- What the values of a type are made of. -/
inductive ValueType where
  | void
  | scalar
  | vector (lanes : Nat)
  | aggregate
  | label
  deriving DecidableEq, Repr, Inhabited

namespace ValueType

def isVector : ValueType -> Bool
  | vector _ => true
  | _ => false

def display : ValueType -> String
  | void => "void"
  | scalar => "scalar"
  | vector lanes => "<" ++ toString lanes ++ " x scalar>"
  | aggregate => "aggregate"
  | label => "label"

/-!
### Annotations
-/

def elementNames : List String :=
  ["i1", "i8", "i16", "i32", "i64", "f16", "f32", "f64", "ptr"]

/-- The lane counts below this bound can be written. -/
def laneBound : Nat := Nat.pow 2 32

/-- The vector type named by the part of an annotation that follows the `v`. -/
def vectorOf? (text : List Char) : Option ValueType :=
  let digits := text.takeWhile Char.isDigit
  let element := String.ofList (text.dropWhile Char.isDigit)
  let lanes := Decimal.ofDigits digits
  if digits ≠ [] ∧ 0 < lanes ∧ lanes < laneBound ∧ element ∈ elementNames then
    some (vector lanes)
  else
    none

def ofAnnotation? (text : String) : Option ValueType :=
  if text ∈ elementNames then some scalar
  else if text = "void" then some void
  else if text = "agg" then some aggregate
  else
    match text.toList with
    | 'v' :: rest => vectorOf? rest
    | _ => none

end ValueType

/-!
## Code of blocks

Classification looks at the instructions of a block, and a plan names its blocks.  This is
all that they need of a function, whatever form the function is kept in.
-/

/-- An instruction, as far as types go. -/
structure Instruction where
  opcode : String
  result : ValueType
  operands : List ValueType
  deriving DecidableEq, Repr

/-- The names and the instructions of the blocks of a function. -/
structure Code (beta : Type) where
  blockName : beta -> String
  instructions : beta -> List Instruction

namespace Code

/-!
### Stored code
-/

/-- The same code with its names and instructions kept in a table, so that they are found
only once. -/
def stored {n : Nat} (code : Code (Fin n)) : Code (Fin n) :=
  let names := Vector.ofFn code.blockName
  let instructions := Vector.ofFn code.instructions
  ⟨fun b => names[b], fun b => instructions[b]⟩

theorem stored_eq {n : Nat} (code : Code (Fin n)) : code.stored = code := by
  simp [stored]

end Code

/-!
### Vector uses
-/

/-- How an instruction comes into contact with a vector. -/
inductive VectorRole where
  | result
  | operand
  deriving DecidableEq, Repr

/-- An instruction that produces or consumes a vector. -/
structure VectorUse where
  role : VectorRole
  opcode : String
  block : String
  deriving DecidableEq, Repr

/-- Does an instruction produce or consume a vector?  The result is looked at first. -/
def Instruction.vectorRole? (i : Instruction) : Option VectorRole :=
  if i.result.isVector then some .result
  else if i.operands.any ValueType.isVector then some .operand
  else none

namespace Code

def vectorUseIn? {beta : Type} (code : Code beta) (b : beta) : Option VectorUse :=
  (code.instructions b).findSome? fun i =>
    i.vectorRole?.map fun role => ⟨role, i.opcode, code.blockName b⟩

def vectorUse? {beta : Type} (code : Code beta) (blocks : List beta) : Option VectorUse :=
  blocks.findSome? code.vectorUseIn?

def hasVector {beta : Type} (code : Code beta) (blocks : List beta) : Bool :=
  (code.vectorUse? blocks).isSome

end Code

end LoopNest
