/-!
# Flow graphs

Graphs of blocks, walks through them, and the order of their reachable blocks.
-/

namespace LoopNest

/-!
## Control-flow graphs

A function body is seen as a graph on its blocks `0, ..., n - 1`: control enters at one
block and leaves each block through an ordered list of successors.  The order of the
successors decides how blocks and loops are numbered.
-/

structure FlowGraph (n : Nat) where
  entry : Fin n
  succs : Fin n -> List (Fin n)

namespace FlowGraph

/-!
## Walks

A walk follows successors from block to block and lists every block that it visits, its
two ends included.  What can be reached, and what must be passed on the way, is said in
terms of walks, without any search.
-/

/-- `Walk g a bs b`: control can go from `a` to `b` through the blocks `bs`. -/
inductive Walk {n : Nat} (g : FlowGraph n) : Fin n -> List (Fin n) -> Fin n -> Prop where
  | stay (a : Fin n) : Walk g a [a] a
  | step {a b c : Fin n} {bs : List (Fin n)} :
      b ∈ g.succs a -> Walk g b bs c -> Walk g a (a :: bs) c

def Reachable {n : Nat} (g : FlowGraph n) (b : Fin n) : Prop :=
  exists bs, g.Walk g.entry bs b

/-- A block that lies on every way from the entry to a reachable block. -/
def Dominates {n : Nat} (g : FlowGraph n) (a b : Fin n) : Prop :=
  g.Reachable b ∧ forall bs, g.Walk g.entry bs b -> a ∈ bs

theorem Walk.head_mem {n : Nat} {g : FlowGraph n} {a b : Fin n} {bs : List (Fin n)}
    (h : g.Walk a bs b) : a ∈ bs := by
  cases h with
  | stay => exact List.mem_cons_self
  | step _ _ => exact List.mem_cons_self

theorem Walk.head?_eq {n : Nat} {g : FlowGraph n} {a b : Fin n} {bs : List (Fin n)}
    (h : g.Walk a bs b) : bs.head? = some a := by
  cases h with
  | stay => rfl
  | step _ _ => rfl

theorem Walk.last_mem {n : Nat} {g : FlowGraph n} {a b : Fin n} {bs : List (Fin n)}
    (h : g.Walk a bs b) : b ∈ bs := by
  induction h with
  | stay => exact List.mem_cons_self
  | step _ _ ih => exact List.mem_cons_of_mem _ ih

theorem Walk.snoc {n : Nat} {g : FlowGraph n} {a b c : Fin n} {bs : List (Fin n)}
    (h : g.Walk a bs b) (hc : c ∈ g.succs b) : g.Walk a (bs ++ [c]) c := by
  induction h with
  | stay a => exact Walk.step hc (Walk.stay c)
  | step hedge _ ih => exact Walk.step hedge (ih hc)

theorem Walk.append {n : Nat} {g : FlowGraph n} {a b c d : Fin n} {bs ds : List (Fin n)}
    (h : g.Walk a bs b) (hc : c ∈ g.succs b) (htail : g.Walk c ds d) :
    g.Walk a (bs ++ ds) d := by
  induction h with
  | stay a => exact Walk.step hc htail
  | step hedge _ ih => exact Walk.step hedge (ih hc)

/-- A walk splits at every block that it visits. -/
theorem Walk.split {n : Nat} {g : FlowGraph n} {a b c : Fin n} {bs : List (Fin n)}
    (h : g.Walk a bs b) (hc : c ∈ bs) :
    exists before after, bs = before ++ c :: after ∧
      g.Walk a (before ++ [c]) c ∧ g.Walk c (c :: after) b := by
  induction h with
  | stay a =>
      cases List.mem_singleton.mp hc
      exact ⟨[], [], rfl, Walk.stay _, Walk.stay _⟩
  | step hedge htail ih =>
      rename_i a d b bs
      rcases List.mem_cons.mp hc with rfl | hc
      · exact ⟨[], bs, rfl, Walk.stay _, Walk.step hedge htail⟩
      · rcases ih hc with ⟨before, after, rfl, hleft, hright⟩
        exact ⟨a :: before, after, rfl, Walk.step hedge hleft, hright⟩

theorem Walk.join {n : Nat} {g : FlowGraph n} {a b c : Fin n} {bs cs : List (Fin n)}
    (h : g.Walk a bs b) (hcs : g.Walk b cs c) : g.Walk a (bs ++ cs.tail) c := by
  cases hcs with
  | stay => simpa using h
  | step hedge htail => exact h.append hedge htail

theorem reachable_entry {n : Nat} (g : FlowGraph n) : g.Reachable g.entry :=
  ⟨[g.entry], Walk.stay g.entry⟩

theorem Reachable.succ {n : Nat} {g : FlowGraph n} {b c : Fin n}
    (h : g.Reachable b) (hc : c ∈ g.succs b) : g.Reachable c := by
  rcases h with ⟨bs, hwalk⟩
  exact ⟨bs ++ [c], hwalk.snoc hc⟩

theorem Reachable.of_mem_walk {n : Nat} {g : FlowGraph n} {b c : Fin n} {bs : List (Fin n)}
    (h : g.Walk g.entry bs b) (hc : c ∈ bs) : g.Reachable c := by
  rcases h.split hc with ⟨before, _, _, hleft, _⟩
  exact ⟨before ++ [c], hleft⟩

theorem Reachable.walk {n : Nat} {g : FlowGraph n} {b c : Fin n} {bs : List (Fin n)}
    (h : g.Reachable b) (hwalk : g.Walk b bs c) : g.Reachable c := by
  rcases h with ⟨as, hentry⟩
  exact ⟨as ++ bs.tail, hentry.join hwalk⟩

/-- A set of blocks that is closed under successors holds the end of every walk that
starts in it. -/
theorem Walk.closed {n : Nat} {g : FlowGraph n} {a b : Fin n} {bs : List (Fin n)}
    {inside : Fin n -> Prop} (h : g.Walk a bs b)
    (hclosed : forall c d, inside c -> d ∈ g.succs c -> inside d) (ha : inside a) :
    inside b := by
  induction h with
  | stay a => exact ha
  | step hedge _ ih => exact ih (hclosed _ _ ha hedge)

/-!
## Reverse post-order

A depth-first search from the entry visits the successors of a block in their order.  It
finishes a block when all its successors have been visited.  The blocks in the reverse of
their finishing order are the order of the graph; unreachable blocks are not in it.
-/

/-- The total size of the successor lists on a search path. -/
def pending {n : Nat} : List (Fin n × List (Fin n)) -> Nat
  | [] => 0
  | (_, todo) :: path => todo.length + 1 + pending path

/-- Continues a depth-first search.  `path` holds the blocks that are open, innermost first,
each with the successors still to try; `unseen` holds the blocks not visited yet; `done`
holds the finished blocks, last finished first. -/
def search {n : Nat} (g : FlowGraph n) :
    (path : List (Fin n × List (Fin n))) -> (unseen done : List (Fin n)) -> List (Fin n)
  | [], _, done => done
  | (b, []) :: path, unseen, done => search g path unseen (b :: done)
  | (b, s :: todo) :: path, unseen, done =>
      if s ∈ unseen then
        search g ((s, g.succs s) :: (b, todo) :: path) (unseen.erase s) done
      else
        search g ((b, todo) :: path) unseen done
termination_by path unseen => (unseen.length, pending path)
decreasing_by
  · apply Prod.Lex.right
    simp only [pending, List.length_nil]
    omega
  · apply Prod.Lex.left
    rename_i hs
    rw [List.length_erase_of_mem hs]
    have hpos := List.length_pos_of_mem hs
    omega
  · apply Prod.Lex.right
    simp only [pending, List.length_cons]
    omega

def order {n : Nat} (g : FlowGraph n) : List (Fin n) :=
  g.search [(g.entry, g.succs g.entry)] ((List.finRange n).erase g.entry) []

end FlowGraph
end LoopNest
