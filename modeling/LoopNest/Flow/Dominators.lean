import LoopNest.Flow.Graph

/-!
# Dominators

Skeletons of ordered graphs, their dominators, and the bodies of natural loops.
-/

namespace LoopNest

/-!
## Skeletons

Once the reachable blocks are in order, dominators and loops depend only on which position
precedes which.  A skeleton lists, for every position of the order, the positions of its
predecessors in increasing order and without repetition.
-/

/-- The predecessors of every position of an order. -/
structure Skeleton where
  preds : Array (List Nat)
  deriving DecidableEq, Repr

namespace Skeleton

def size (s : Skeleton) : Nat :=
  s.preds.size

def predsOf (s : Skeleton) (p : Nat) : List Nat :=
  s.preds.getD p []

end Skeleton

/-- The positions in a list of successor lists that have `b` as a successor. -/
def positionsBefore {n : Nat} (successors : List (List (Fin n))) (b : Fin n) : List Nat :=
  (successors.zipIdx.filter fun entry => entry.1.contains b).map Prod.snd

def FlowGraph.skeleton {n : Nat} (g : FlowGraph n) (order : List (Fin n)) : Skeleton :=
  let successors := order.map g.succs
  ⟨(order.map (positionsBefore successors)).toArray⟩

/-!
## Dominators

The immediate dominators form a tree on the positions of an order.  The tree is found by
sweeps: each position in turn is put below the meeting point of its predecessors in the
tree built so far, until a sweep changes nothing.  A parent always has a smaller position
than its child, so every chain of parents ends at the entry, which is its own parent.
-/

/-- The parent of every position; a position has none until its first sweep. -/
abbrev DomTree : Type :=
  Array (Option Nat)

namespace DomTree

def parent? (t : DomTree) (p : Nat) : Option Nat :=
  t.getD p none

def root (size : Nat) : DomTree :=
  (Array.replicate size none).setIfInBounds 0 (some 0)

/-- The nearest common ancestor of two positions.  The greater one climbs; a chain that
breaks off is taken to end at the entry. -/
def meet (t : DomTree) (a b : Nat) : Nat :=
  if a = b then a
  else if b < a then
    match t.parent? a with
    | none => 0
    | some p => if p < a then meet t p b else 0
  else
    match t.parent? b with
    | none => 0
    | some p => if p < b then meet t a p else 0
termination_by a + b

/-- Is `a` an ancestor of `b`, or `b` itself? -/
def above (t : DomTree) (a b : Nat) : Bool :=
  if a = b then true
  else
    match t.parent? b with
    | none => false
    | some p => if p < b then above t a p else false
termination_by b

end DomTree

namespace Skeleton

/-- The meeting point of those predecessors of `p` that are in the tree. -/
def meetingPoint (s : Skeleton) (t : DomTree) (p : Nat) : Option Nat :=
  (s.predsOf p).foldl
    (fun found q =>
      match t.parent? q with
      | none => found
      | some _ =>
          match found with
          | none => some q
          | some r => some (t.meet q r))
    none

/-- Puts `p` below the meeting point of its predecessors. -/
def place (s : Skeleton) (t : DomTree) (p : Nat) : DomTree :=
  match s.meetingPoint t p with
  | none => t
  | some q => t.setIfInBounds p (some q)

/-- Places every position but the entry, in order. -/
def sweep (s : Skeleton) (t : DomTree) : DomTree :=
  (List.range' 1 (s.size - 1)).foldl s.place t

/-- Sweeps until nothing changes, at most `sweeps` times. -/
def settle (s : Skeleton) : (sweeps : Nat) -> DomTree -> DomTree
  | 0, t => t
  | sweeps + 1, t =>
      let next := s.sweep t
      if next = t then t else settle s sweeps next

/-- The tree of immediate dominators.  A sweep that changes something lowers the parent of
some position, so there are fewer changing sweeps than pairs of positions. -/
def dominators (s : Skeleton) : DomTree :=
  s.settle (s.size * s.size + 1) (DomTree.root s.size)

end Skeleton

/-!
## Natural loops

An edge whose target dominates its source closes a loop: the target is the header, the
source a tail.  The body of a header holds every position from which a tail can be reached
without passing the header.  All tails of a header share one loop.
-/

/-- A header and the positions of its body in increasing order. -/
structure NaturalLoop where
  header : Nat
  body : List Nat
  deriving DecidableEq, Repr

namespace Skeleton

/-- The predecessors of `p` that `p` dominates. -/
def tails (s : Skeleton) (t : DomTree) (p : Nat) : List Nat :=
  (s.predsOf p).filter (t.above p)

def entering (s : Skeleton) (p : Nat) (positions : List Nat) : List Nat :=
  positions.filter fun q => (s.predsOf p).contains q

def avoiding (s : Skeleton) (p : Nat) (positions : List Nat) : List Nat :=
  positions.filter fun q => !(s.predsOf p).contains q

theorem entering_add_avoiding (s : Skeleton) (p : Nat) (positions : List Nat) :
    (s.entering p positions).length + (s.avoiding p positions).length = positions.length := by
  induction positions with
  | nil => rfl
  | cons q positions ih =>
      simp only [entering, avoiding, List.filter_cons] at ih ⊢
      cases (s.predsOf p).contains q
      all_goals
        simp only [Bool.not_false, Bool.not_true, if_true, Bool.false_eq_true, if_false,
          List.length_cons]
        omega

/-- Walks backwards from the positions in `work` and removes what is found from `outside`.
What stays outside is never found. -/
def drain (s : Skeleton) : (work outside : List Nat) -> List Nat
  | [], outside => outside
  | p :: work, outside => drain s (s.entering p outside ++ work) (s.avoiding p outside)
termination_by work outside => work.length + outside.length
decreasing_by
  have hsplit := s.entering_add_avoiding p outside
  simp only [List.length_append, List.length_cons]
  omega

def body (s : Skeleton) (header : Nat) (tails : List Nat) : List Nat :=
  let positions := List.range s.size
  let inner := tails.filter (· != header)
  let outside := positions.filter fun p => p != header && !inner.contains p
  let rest := s.drain inner outside
  positions.filter fun p => !rest.contains p

/-- The loop with header `p`, if `p` has tails. -/
def loopAt? (s : Skeleton) (t : DomTree) (p : Nat) : Option NaturalLoop :=
  match s.tails t p with
  | [] => none
  | tails => some ⟨p, s.body p tails⟩

def naturalLoops (s : Skeleton) (t : DomTree) : List NaturalLoop :=
  (List.range s.size).filterMap (s.loopAt? t)

end Skeleton

end LoopNest
