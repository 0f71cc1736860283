import LoopNest.Flow.Dominators
import LoopNest.Forest

/-!
# Analyses

The loops of a graph are nested into a forest, and an analysis keeps what is found on the way.
-/

namespace LoopNest

/-!
## Nesting

Natural loops with different headers are disjoint or nested.  So the parent of a loop is
the smallest other loop that holds its header, and a position belongs to the smallest loop
that holds it.
-/

/-- The first of the items with the least size. -/
def firstLeast? {alpha : Type} (size : alpha -> Nat) : List alpha -> Option alpha
  | [] => none
  | x :: xs =>
      match firstLeast? size xs with
      | none => some x
      | some y => if size y < size x then some y else some x

namespace NaturalLoop

/-- The number of the smallest of the numbered loops that satisfy a condition. -/
def smallest? (loops : List NaturalLoop) (holds : NaturalLoop -> LoopId -> Bool) :
    Option LoopId :=
  (firstLeast? (fun entry => entry.1.body.length)
    (loops.zipIdx.filter fun entry => holds entry.1 entry.2)).map Prod.snd

def parent? (loops : List NaturalLoop) (id : LoopId) (l : NaturalLoop) : Option LoopId :=
  smallest? loops fun k j => j != id && k.body.contains l.header && !l.body.contains k.header

def owner? (loops : List NaturalLoop) (p : Nat) : Option LoopId :=
  smallest? loops fun k _ => k.body.contains p

/-- The depths of loops from their parents.  A parent comes before its children. -/
def depths (parents : List (Option LoopId)) : List Nat :=
  parents.foldl
    (fun found parent =>
      match parent with
      | none => found ++ [1]
      | some j => found ++ [found.getD j 1 + 1])
    []

/-- The numbers of the loops whose parent is `parent`, in increasing order. -/
def children (parents : List (Option LoopId)) (parent : Option LoopId) : List LoopId :=
  (parents.zipIdx.filter fun entry => decide (entry.1 = parent)).map Prod.snd

def forest (size : Nat) (loops : List NaturalLoop) : LoopForest Nat :=
  let parents := loops.zipIdx.map fun entry => parent? loops entry.2 entry.1
  let depths := depths parents
  let innermost := (List.range size).filterMap fun p => (owner? loops p).map fun id => (p, id)
  { loops := loops.zipIdx.map fun entry =>
      { header := entry.1.header
        blocks := entry.1.body
        ownBlocks := (innermost.filter fun owned => owned.2 == entry.2).map Prod.fst
        subLoops := children parents (some entry.2)
        parent := parents.getD entry.2 none
        depth := depths.getD entry.2 1 }
    topLevel := (children parents none).reverse
    innermost := innermost }

end NaturalLoop

def Skeleton.forest (s : Skeleton) (t : DomTree) : LoopForest Nat :=
  NaturalLoop.forest s.size (s.naturalLoops t)

/-!
## Loop analysis

The analysis of a graph keeps the order of its blocks and their dominator tree, and
answers questions about blocks by their positions in the order.  A block that is not in
the order has no dominators and dominates nothing.
-/

structure Analysis (n : Nat) where
  order : List (Fin n)
  tree : DomTree
  deriving DecidableEq

namespace Analysis

def empty {n : Nat} : Analysis n :=
  ⟨[], #[]⟩

def position? {n : Nat} (a : Analysis n) (b : Fin n) : Option Nat :=
  a.order.idxOf? b

/-- The immediate dominator of a block; the entry and unreachable blocks have none. -/
def idom? {n : Nat} (a : Analysis n) (b : Fin n) : Option (Fin n) := do
  let p <- a.position? b
  if p = 0 then
    none
  else
    let parent <- a.tree.parent? p
    a.order[parent]?

def dominates {n : Nat} (a : Analysis n) (b c : Fin n) : Bool :=
  match a.position? b, a.position? c with
  | some p, some q => a.tree.above p q
  | _, _ => false

end Analysis

namespace FlowGraph

def analyze {n : Nat} (g : FlowGraph n) : Analysis n :=
  let order := g.order
  ⟨order, (g.skeleton order).dominators⟩

def blockAt {n : Nat} (g : FlowGraph n) (order : List (Fin n)) (p : Nat) : Fin n :=
  order.getD p g.entry

def forestOf {n : Nat} (g : FlowGraph n) (a : Analysis n) : LoopForest (Fin n) :=
  ((g.skeleton a.order).forest a.tree).map (g.blockAt a.order)

def forest {n : Nat} (g : FlowGraph n) : LoopForest (Fin n) :=
  g.forestOf g.analyze

end FlowGraph

end LoopNest
