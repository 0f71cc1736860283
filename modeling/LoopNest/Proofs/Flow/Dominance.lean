import LoopNest.Analysis
import LoopNest.Proofs.Flow.Settling
import Mathlib.Data.Fintype.Card

/-!
# Dominance

The dominators of an analysis are those of its graph, its order is that of a depth-first search,
and looking them up never fails.

The analysis of a graph answers questions about dominance by its tree.  The main statement
says that its answers are right for every graph: a block dominates another when it lies on
all walks to it, and the immediate dominator is the strict dominator that all other strict
dominators dominate.
-/

namespace LoopNest
namespace FlowGraph

variable {n : Nat} (g : FlowGraph n)

/-!
## Positions of the analysis
-/

theorem position?_eq_some {b : Fin n} {p : Nat} :
    g.analyze.position? b = some p <-> g.order[p]? = some b := by
  show g.order.idxOf? b = some p <-> _
  rw [List.idxOf?_eq_some_iff, List.getElem?_eq_some_iff]
  constructor
  · intro h
    rcases h with ⟨hp, hb, _⟩
    exact ⟨hp, hb⟩
  · intro h
    rcases h with ⟨hp, hb⟩
    refine ⟨hp, hb, fun q hq heq => ?_⟩
    have hpq := (List.Nodup.getElem_inj_iff g.nodup_order).mp (heq.trans hb.symm)
    lia

theorem position?_eq_none {b : Fin n} :
    g.analyze.position? b = none <-> ¬ g.Reachable b := by
  show g.order.idxOf? b = none <-> _
  rw [List.idxOf?_eq_none_iff, g.mem_order]

theorem settled_tree : (g.skeleton g.order).Settled g.analyze.tree := by
  apply Skeleton.settled_dominators g.rooted_order
  rw [size_skeleton]
  exact List.length_pos_of_mem (g.mem_order.mpr g.reachable_entry)

/-!
## Answers about blocks
-/

theorem Dominates.reachable {g : FlowGraph n} {a b : Fin n} (h : g.Dominates a b) :
    g.Reachable a := by
  rcases h with ⟨⟨bs, hwalk⟩, hall⟩
  exact Reachable.of_mem_walk hwalk (hall bs hwalk)

theorem above_positions {a b : Fin n} {p q : Nat} (hp : g.order[p]? = some a)
    (hq : g.order[q]? = some b) : g.analyze.tree.above p q = true <-> g.Dominates a b := by
  rw [← g.dominates_positions hp hq]
  exact g.settled_tree.above_iff g.rooted_order (g.lt_size_of_order hq)

theorem dominates_analyze {a b : Fin n} :
    g.analyze.dominates a b = true <-> g.Dominates a b := by
  unfold Analysis.dominates
  cases hp : g.analyze.position? a with
  | none =>
      have ha := g.position?_eq_none.mp hp
      simp only [Bool.false_eq_true, false_iff]
      exact fun h => ha h.reachable
  | some p =>
      cases hq : g.analyze.position? b with
      | none =>
          have hb := g.position?_eq_none.mp hq
          simp only [Bool.false_eq_true, false_iff]
          exact fun h => hb h.1
      | some q =>
          exact g.above_positions (g.position?_eq_some.mp hp) (g.position?_eq_some.mp hq)

theorem Dominates.antisymm {g : FlowGraph n} {a b : Fin n} (hab : g.Dominates a b)
    (hba : g.Dominates b a) : a = b := by
  rcases hab.reachable.position with ⟨p, hp⟩
  rcases hab.1.position with ⟨q, hq⟩
  have hpq := DomTree.le_of_above ((g.above_positions hp hq).mpr hab)
  have hqp := DomTree.le_of_above ((g.above_positions hq hp).mpr hba)
  cases Nat.le_antisymm hpq hqp
  rw [hp] at hq
  injection hq

theorem idom?_of_position {b : Fin n} {p : Nat} (hp : g.order[p]? = some b) (hp0 : p ≠ 0) :
    exists q a, g.analyze.tree.parent? p = some q ∧ g.order[q]? = some a ∧
      g.analyze.idom? b = some a := by
  have hsize := g.lt_size_of_order hp
  rcases g.settled_tree.placed hsize with ⟨q, hq⟩
  have hqp := (g.settled_tree.parent_dominates g.rooted_order hp0 hq).1
  rw [size_skeleton] at hsize
  have ha : g.order[q]? = some g.order[q] := List.getElem?_eq_getElem (lt_trans hqp hsize)
  refine ⟨q, g.order[q], hq, ha, ?_⟩
  unfold Analysis.idom?
  rw [g.position?_eq_some.mpr hp]
  show (if p = 0 then none else _) = _
  rw [if_neg hp0, hq]
  exact ha

theorem idom?_eq_none {b : Fin n} :
    g.analyze.idom? b = none <-> b = g.entry ∨ ¬ g.Reachable b := by
  cases hp : g.analyze.position? b with
  | none =>
      have hb := g.position?_eq_none.mp hp
      simp [Analysis.idom?, hp, hb]
  | some p =>
      have hp' := g.position?_eq_some.mp hp
      have hb := g.reachable_of_order hp'
      by_cases hp0 : p = 0
      · subst hp0
        have hentry : b = g.entry := by
          rw [g.order_zero] at hp'
          injection hp' with heq
          exact heq.symm
        subst hentry
        simp [Analysis.idom?, hp]
      · rcases g.idom?_of_position hp' hp0 with ⟨q, a, _, _, ha⟩
        have hentry : b ≠ g.entry := by
          intro heq
          subst heq
          exact hp0 (g.order_inj hp' g.order_zero)
        simp [ha, hentry, hb]

/-- The immediate dominator is a strict dominator, and all strict dominators dominate it. -/
theorem idom?_spec {a b : Fin n} (h : g.analyze.idom? b = some a) :
    a ≠ b ∧ g.Dominates a b ∧ forall c, c ≠ b -> g.Dominates c b -> g.Dominates c a := by
  have hsome : ¬ (b = g.entry ∨ ¬ g.Reachable b) := by
    rw [← g.idom?_eq_none, h]
    exact Option.some_ne_none a
  rw [not_or, not_not] at hsome
  rcases hsome.2.position with ⟨p, hp⟩
  have hp0 : p ≠ 0 := by
    intro hp0
    subst hp0
    rw [g.order_zero] at hp
    injection hp with heq
    exact hsome.1 heq.symm
  rcases g.idom?_of_position hp hp0 with ⟨q, a', hq, ha', hidom⟩
  have haa : a' = a := by
    rw [h] at hidom
    injection hidom with heq
    exact heq.symm
  subst haa
  have hparent := g.settled_tree.parent_dominates g.rooted_order hp0 hq
  refine ⟨?_, (g.dominates_positions ha' hp).mp hparent.2, fun c hcb hc => ?_⟩
  · intro heq
    subst heq
    exact (ne_of_lt hparent.1) (g.order_inj ha' hp)
  · rcases hc.reachable.position with ⟨r, hr⟩
    apply (g.dominates_positions hr ha').mp
    apply g.settled_tree.swept.faithful p q r hq ((g.dominates_positions hr hp).mpr hc)
    intro hrp
    subst hrp
    rw [hr] at hp
    injection hp with heq
    exact hcb heq

/-- The analysis finds dominance and immediate dominators exactly. -/
theorem dominators_exact (a b : Fin n) :
    (g.analyze.dominates a b = true <->
      g.Reachable a ∧ g.Reachable b ∧ forall bs, g.Walk g.entry bs b -> a ∈ bs) ∧
    (g.analyze.idom? b = none <-> b = g.entry ∨ ¬ g.Reachable b) ∧
    (g.analyze.idom? b = some a <->
      a ≠ b ∧ g.Dominates a b ∧ forall c, c ≠ b -> g.Dominates c b -> g.Dominates c a) := by
  refine ⟨?_, g.idom?_eq_none, g.idom?_spec, ?_⟩
  · rw [g.dominates_analyze]
    exact ⟨fun h => ⟨h.reachable, h⟩, fun h => h.2⟩
  · intro h
    rcases h with ⟨hab, hdom, hnearest⟩
    cases hidom : g.analyze.idom? b with
    | none =>
        rcases g.idom?_eq_none.mp hidom with rfl | hunreachable
        · have hmem := hdom.2 _ (Walk.stay g.entry)
          exact absurd (List.mem_singleton.mp hmem) hab
        · exact absurd hdom.1 hunreachable
    | some d =>
        rcases g.idom?_spec hidom with ⟨hdb, hdom', hnearest'⟩
        rw [Dominates.antisymm (hnearest d hdb hdom') (hnearest' a hab hdom)]

end FlowGraph
end LoopNest

namespace LoopNest
namespace FlowGraph

/-!
## Recursive depth-first search

The order of a graph comes from a search that keeps its open blocks on a path.  The same
search can be told by recursion: a block is marked, then its successors are visited in
turn, then it is finished.  The open blocks of the path are the visits that have begun and
not ended, and what each of them has still to try is the rest of its loop over successors.
So both searches finish the blocks in the same order.
-/

variable {n : Nat}

/-- With a block more fewer blocks are left. -/
theorem left_lt {seen later : Finset (Fin n)} {b : Fin n} (hb : b ∉ seen)
    (hlater : insert b seen ⊆ later) : n - later.card < n - seen.card := by
  have hcard := Finset.card_insert_of_notMem hb
  have hsub := Finset.card_le_card hlater
  have hle := card_finset_fin_le later
  lia

/-- Visits the blocks of `todo` in turn, but for those that are `seen` by then.  The answer
holds the blocks that are seen in the end, and the blocks visited on the way in the order
in which they were finished. -/
def visit (g : FlowGraph n) (seen : Finset (Fin n)) :
    (todo : List (Fin n)) -> { found : Finset (Fin n) × List (Fin n) // seen ⊆ found.1 }
  | [] => ⟨(seen, []), Finset.Subset.refl seen⟩
  | b :: todo =>
      if _hb : b ∈ seen then
        visit g seen todo
      else
        let inner := visit g (insert b seen) (g.succs b)
        let later := visit g inner.1.1 todo
        ⟨(later.1.1, inner.1.2 ++ b :: later.1.2),
          (Finset.subset_insert b seen).trans (inner.2.trans later.2)⟩
termination_by todo => (n - seen.card, todo.length)
decreasing_by
  · exact Prod.Lex.right _ (Nat.lt_succ_self todo.length)
  · exact Prod.Lex.left _ _ (left_lt _hb (Finset.Subset.refl _))
  · exact Prod.Lex.left _ _ (left_lt _hb inner.2)

/-- The blocks in the order in which the recursive search from the entry finishes them. -/
def finishing (g : FlowGraph n) : List (Fin n) :=
  (g.visit ∅ [g.entry]).1.2

/-!
### Calls and open blocks
-/

/-- The two searches have seen the same blocks: one lists those that it has not seen. -/
structure Unseen (seen : Finset (Fin n)) (unseen : List (Fin n)) : Prop where
  nodup : unseen.Nodup
  mem : forall c, c ∈ unseen <-> c ∉ seen

theorem Unseen.insert {seen : Finset (Fin n)} {unseen : List (Fin n)}
    (h : Unseen seen unseen) (b : Fin n) : Unseen (insert b seen) (unseen.erase b) where
  nodup := h.nodup.erase b
  mem := by
    intro c
    rw [h.nodup.mem_erase_iff, h.mem, Finset.mem_insert, not_or]

variable (g : FlowGraph n)

/-- Trying the successors of the innermost open block finishes the blocks that the loop of
the recursion over them finishes, and leaves the outer blocks open as they are. -/
theorem search_visit {seen : Finset (Fin n)} {unseen : List (Fin n)}
    (h : Unseen seen unseen) (todo : List (Fin n)) (b : Fin n) (path : List (Fin n × List (Fin n)))
    (done : List (Fin n)) :
    exists rest, Unseen (g.visit seen todo).1.1 rest ∧
      g.search ((b, todo) :: path) unseen done =
        g.search ((b, []) :: path) rest ((g.visit seen todo).1.2.reverse ++ done) := by
  -- a visit is opened on top of the path of its caller, so block and path vary
  induction seen, todo using visit.induct g generalizing unseen b path done with
  | case1 seen =>
      rw [visit]
      exact ⟨unseen, h, rfl⟩
  | case2 seen s todo hs ih =>
      have hpassed : s ∉ unseen := fun hmem => (h.mem s).mp hmem hs
      rw [visit, dif_pos hs, search, if_neg hpassed]
      exact ih h b path done
  | case3 seen s todo hs inner ihinner ihlater =>
      have hfresh : s ∈ unseen := (h.mem s).mpr hs
      rcases ihinner (h.insert s) s ((b, todo) :: path) done with ⟨middle, hmiddle, hbelow⟩
      rcases ihlater hmiddle b path (s :: (inner.1.2.reverse ++ done)) with
        ⟨rest, hrest, hbeside⟩
      have hvisit : (g.visit seen (s :: todo)).1 =
          ((g.visit inner.1.1 todo).1.1, inner.1.2 ++ s :: (g.visit inner.1.1 todo).1.2) := by
        rw [visit, dif_neg hs]
      rw [hvisit]
      refine ⟨rest, hrest, ?_⟩
      calc
        g.search ((b, s :: todo) :: path) unseen done
            = g.search ((s, g.succs s) :: (b, todo) :: path) (unseen.erase s) done := by
          rw [search, if_pos hfresh]
        _ = g.search ((s, []) :: (b, todo) :: path) middle (inner.1.2.reverse ++ done) := hbelow
        _ = g.search ((b, todo) :: path) middle (s :: (inner.1.2.reverse ++ done)) := by
          rw [search]
        _ = g.search ((b, []) :: path) rest
              ((inner.1.2 ++ s :: (g.visit inner.1.1 todo).1.2).reverse ++ done) := by
          rw [hbeside]
          simp

theorem order_eq_finishing : g.order = g.finishing.reverse := by
  have hstart : Unseen {g.entry} ((List.finRange n).erase g.entry) := by
    have hall : Unseen ∅ (List.finRange n) := ⟨List.nodup_finRange n, by simp⟩
    exact hall.insert g.entry
  rcases g.search_visit hstart (g.succs g.entry) g.entry [] [] with ⟨rest, _, hsearch⟩
  have hentry : g.entry ∉ (∅ : Finset (Fin n)) := Finset.notMem_empty g.entry
  rw [order, hsearch, search, search, finishing, visit, dif_neg hentry]
  simp [visit]

/-!
### What follows for the order
-/

variable {g}

theorem exists_pred_before {p : Nat} {b : Fin n} (hp : g.order[p]? = some b)
    (hb : b ≠ g.entry) :
    exists (q : Nat) (c : Fin n), q < p ∧ g.order[q]? = some c ∧ b ∈ g.succs c := by
  have hp0 : p ≠ 0 := by
    intro hp0
    subst hp0
    rw [g.order_zero] at hp
    injection hp with heq
    exact hb heq.symm
  rcases g.rooted_order.earlier p hp0 (g.lt_size_of_order hp) with ⟨q, hq, hqp⟩
  rcases g.mem_predsOf_skeleton.mp hq with ⟨b', c, hb', hc, hedge⟩
  cases hp.symm.trans hb'
  exact ⟨q, c, hqp, hc, hedge⟩

theorem Dominates.position_le {a b : Fin n} (h : g.Dominates a b) :
    exists p q, g.analyze.position? a = some p ∧ g.analyze.position? b = some q ∧ p ≤ q := by
  rcases h.reachable.position with ⟨p, hp⟩
  rcases h.1.position with ⟨q, hq⟩
  have hdom := (g.dominates_positions hp hq).mpr h
  exact ⟨p, q, g.position?_eq_some.mpr hp, g.position?_eq_some.mpr hq,
    hdom.le g.rooted_order (g.lt_size_of_order hq)⟩

/-- The order of a graph is the reverse of the order in which a recursive search finishes
the blocks.  It holds the reachable blocks once each, the entry first, and positions invert
it; a block other than the entry stands behind one of its predecessors, and no block stands
before a block that dominates it. -/
theorem order_depth_first (g : FlowGraph n) :
    g.analyze.order = g.finishing.reverse ∧
    (forall b, b ∈ g.analyze.order <-> g.Reachable b) ∧
    g.analyze.order.Nodup ∧
    g.analyze.order.head? = some g.entry ∧
    (forall b p, g.analyze.position? b = some p <-> g.analyze.order[p]? = some b) ∧
    (forall b p, g.analyze.position? b = some p -> b ≠ g.entry ->
      exists c q, b ∈ g.succs c ∧ g.analyze.position? c = some q ∧ q < p) ∧
    forall a b, g.Dominates a b ->
      exists p q, g.analyze.position? a = some p ∧ g.analyze.position? b = some q ∧ p ≤ q := by
  refine ⟨g.order_eq_finishing, fun b => g.mem_order, g.nodup_order, g.head?_order,
    fun b p => g.position?_eq_some, fun b p hp hb => ?_, fun a b h => h.position_le⟩
  rcases exists_pred_before (g.position?_eq_some.mp hp) hb with ⟨q, c, hqp, hc, hedge⟩
  exact ⟨c, q, hedge, g.position?_eq_some.mpr hc, hqp⟩

end FlowGraph
end LoopNest

namespace LoopNest

/-!
## Look-ups in an analysis

An analysis answers from three tables: the positions of the blocks, the parents of the positions
and the order.  A run of a question reads entries of these tables one after the other, and there
is no run if it would read behind the end of a table, or follow a parent that was never set.  The
analysis of a graph, and an analysis without an order, have a run for every question.
-/

/-- The climb from a position towards `a` reads a parent inside the tree at every step.  It ends
at `a`, at the entry, or at a position that has no parent yet. -/
inductive DomTree.Climb (t : DomTree) (a : Nat) : Nat -> Bool -> Prop where
  | found : Climb t a a true
  | entry : a ≠ 0 -> Climb t a 0 false
  | unplaced {b : Nat} : a ≠ b -> b ≠ 0 -> t[b]? = some none -> Climb t a b false
  | parent {b p : Nat} {answer : Bool} :
      a ≠ b -> b ≠ 0 -> t[b]? = some (some p) -> Climb t a p answer -> Climb t a b answer

namespace Analysis

variable {n : Nat}

/-- The run that finds the immediate dominator of a block. -/
inductive FindsIdom (a : Analysis n) (b : Fin n) : Option (Fin n) -> Prop where
  | unknown : a.position? b = none -> FindsIdom a b none
  | entry : a.position? b = some 0 -> FindsIdom a b none
  | parent {p q : Nat} {d : Fin n} :
      a.position? b = some p -> p ≠ 0 -> a.tree[p]? = some (some q) -> a.order[q]? = some d ->
      FindsIdom a b (some d)

/-- The run that decides whether block `b` dominates block `c`. -/
inductive DecidesDominance (a : Analysis n) (b c : Fin n) : Bool -> Prop where
  | unknown : a.position? b = none ∨ a.position? c = none -> DecidesDominance a b c false
  | known {p q : Nat} {answer : Bool} :
      a.position? b = some p -> a.position? c = some q -> a.tree.Climb p q answer ->
      DecidesDominance a b c answer

/-- Every question about dominators has a run that ends with the answer. -/
structure InBounds (a : Analysis n) : Prop where
  idom : forall b, a.FindsIdom b (a.idom? b)
  dominates : forall b c, a.DecidesDominance b c (a.dominates b c)

section

variable {a : Analysis n} (h : a.order = [])
include h

theorem position?_of_order_nil (b : Fin n) : a.position? b = none := by
  rw [position?, h]
  rfl

theorem idom?_of_order_nil (b : Fin n) : a.idom? b = none := by
  rw [idom?, position?_of_order_nil h]
  rfl

theorem dominates_of_order_nil (b c : Fin n) : a.dominates b c = false := by
  rw [dominates, position?_of_order_nil h]

theorem inBounds_of_order_nil : a.InBounds where
  idom := by
    intro b
    rw [idom?_of_order_nil h]
    exact FindsIdom.unknown (position?_of_order_nil h b)
  dominates := by
    intro b c
    rw [dominates_of_order_nil h]
    exact DecidesDominance.unknown (Or.inl (position?_of_order_nil h b))

end

end Analysis

namespace DomTree

variable {t : DomTree} {a b p q : Nat}

theorem getElem?_of_parent (hp : t.parent? p = some q) : t[p]? = some (some q) := by
  rw [parent?, Array.getD_eq_getD_getElem?] at hp
  cases hget : t[p]? with
  | none =>
      rw [hget] at hp
      cases hp
  | some entry =>
      rw [hget] at hp
      exact congrArg some hp

theorem above_zero (ha : a ≠ 0) : t.above a 0 = false := by
  rw [← Bool.not_eq_true]
  intro habove
  exact ha (Nat.le_zero.mp (le_of_above habove))

/-- Where all parents are set and stand lower, a climb ends with the answer of the test. -/
theorem climb_above {size : Nat}
    (hlower : forall p, p ≠ 0 -> p < size -> exists q, t.parent? p = some q ∧ q < p)
    (a : Nat) (hb : b < size) : t.Climb a b (t.above a b) := by
  induction b using Nat.strong_induction_on with
  | h b ih =>
      by_cases hab : a = b
      · subst hab
        rw [above_self]
        exact Climb.found
      · by_cases hb0 : b = 0
        · subst hb0
          rw [above_zero hab]
          exact Climb.entry hab
        · rcases hlower b hb0 hb with ⟨p, hp, hpb⟩
          rw [above_of_parent hp hpb hab]
          exact Climb.parent hab hb0 (getElem?_of_parent hp) (ih p hpb (lt_trans hpb hb))

end DomTree

namespace FlowGraph

variable {n : Nat} (g : FlowGraph n)

theorem lower_parent {p : Nat} (hp0 : p ≠ 0) (hp : p < (g.skeleton g.order).size) :
    exists q, g.analyze.tree.parent? p = some q ∧ q < p := by
  rcases g.settled_tree.placed hp with ⟨q, hq⟩
  exact ⟨q, hq, (g.settled_tree.parent_dominates g.rooted_order hp0 hq).1⟩

/-- The analysis of a graph stays inside its tables. -/
theorem inBounds_analyze : g.analyze.InBounds where
  idom := by
    intro b
    cases hp : g.analyze.position? b with
    | none =>
        have hnone := g.idom?_eq_none.mpr (Or.inr (g.position?_eq_none.mp hp))
        rw [hnone]
        exact Analysis.FindsIdom.unknown hp
    | some p =>
        by_cases hp0 : p = 0
        · subst hp0
          have hentry : g.analyze.idom? b = none := by
            rw [Analysis.idom?, hp]
            rfl
          rw [hentry]
          exact Analysis.FindsIdom.entry hp
        · rcases g.idom?_of_position (g.position?_eq_some.mp hp) hp0 with ⟨q, d, hq, hd, hidom⟩
          rw [hidom]
          exact Analysis.FindsIdom.parent hp hp0 (DomTree.getElem?_of_parent hq) hd
  dominates := by
    intro b c
    unfold Analysis.dominates
    cases hp : g.analyze.position? b with
    | none => exact Analysis.DecidesDominance.unknown (Or.inl hp)
    | some p =>
        cases hq : g.analyze.position? c with
        | none => exact Analysis.DecidesDominance.unknown (Or.inr hq)
        | some q =>
            have hsize := g.lt_size_of_order (g.position?_eq_some.mp hq)
            exact Analysis.DecidesDominance.known hp hq
              (DomTree.climb_above (fun p hp0 hp => g.lower_parent hp0 hp) p hsize)

end FlowGraph

end LoopNest
