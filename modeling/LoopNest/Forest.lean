/-!
# Loop forests

A forest numbers the loops of a function by the order of their headers and says how they
nest.  Top-level loops are listed last header first, sub-loops first header first, and
the discovery order of all loops goes through the forest in this order, parents before
children.
-/

namespace LoopNest

abbrev LoopId : Type := Nat

/-- A loop.  `blocks` holds its whole body, `ownBlocks` the part outside its sub-loops;
top-level loops have depth one. -/
structure Loop (beta : Type) where
  header : beta
  blocks : List beta
  ownBlocks : List beta
  subLoops : List LoopId
  parent : Option LoopId
  depth : Nat
  deriving DecidableEq, Repr

/-- The loop nest of one function.  `innermost` gives for every block that is in a loop the
smallest loop that holds it. -/
structure LoopForest (beta : Type) where
  loops : List (Loop beta)
  topLevel : List LoopId
  innermost : List (beta × LoopId)
  deriving DecidableEq, Repr

/-- The same loop with its blocks renamed. -/
def Loop.map {beta gamma : Type} (f : beta -> gamma) (l : Loop beta) : Loop gamma where
  header := f l.header
  blocks := l.blocks.map f
  ownBlocks := l.ownBlocks.map f
  subLoops := l.subLoops
  parent := l.parent
  depth := l.depth

def Loop.isInnermost {beta : Type} (l : Loop beta) : Bool :=
  l.subLoops.isEmpty

namespace LoopForest

def empty {beta : Type} : LoopForest beta :=
  ⟨[], [], []⟩

def map {beta gamma : Type} (f : beta -> gamma) (forest : LoopForest beta) :
    LoopForest gamma where
  loops := forest.loops.map (Loop.map f)
  topLevel := forest.topLevel
  innermost := forest.innermost.map fun entry => (f entry.1, entry.2)

def size {beta : Type} (forest : LoopForest beta) : Nat :=
  forest.loops.length

def isEmpty {beta : Type} (forest : LoopForest beta) : Bool :=
  forest.loops.isEmpty

def get? {beta : Type} (forest : LoopForest beta) (id : LoopId) : Option (Loop beta) :=
  forest.loops[id]?

def subLoops {beta : Type} (forest : LoopForest beta) (id : LoopId) : List LoopId :=
  match forest.get? id with
  | none => []
  | some l => l.subLoops

/-!
## Discovery order
-/

/-- The first `count` loops when the listed loops are visited in turn, each followed by its
sub-loops. -/
def visit {beta : Type} (forest : LoopForest beta) : (count : Nat) -> List LoopId -> List LoopId
  | 0, _ => []
  | _, [] => []
  | count + 1, id :: ids => id :: visit forest count (forest.subLoops id ++ ids)

def preorder {beta : Type} (forest : LoopForest beta) : List LoopId :=
  forest.visit forest.size forest.topLevel

/-- A loop followed by the loops below it, down to `levels` levels. -/
def subtree {beta : Type} (forest : LoopForest beta) : (levels : Nat) -> LoopId -> List LoopId
  | 0, _ => []
  | levels + 1, id => id :: (forest.subLoops id).flatMap (subtree forest levels)

/-- All loops, each followed by the loops below it. -/
def outline {beta : Type} (forest : LoopForest beta) : List LoopId :=
  forest.topLevel.flatMap (forest.subtree forest.size)

/-!
## Blocks
-/

def loopFor? {beta : Type} [DecidableEq beta] (forest : LoopForest beta) (b : beta) :
    Option LoopId :=
  forest.innermost.lookup b

/-- The depth of a block; a block outside all loops has depth zero. -/
def depthOf {beta : Type} [DecidableEq beta] (forest : LoopForest beta) (b : beta) : Nat :=
  match forest.loopFor? b >>= forest.get? with
  | none => 0
  | some l => l.depth

def isHeader {beta : Type} [DecidableEq beta] (forest : LoopForest beta) (b : beta) : Bool :=
  match forest.loopFor? b >>= forest.get? with
  | none => false
  | some l => decide (l.header = b)

end LoopForest
end LoopNest
