import LoopNest.Flow.Dominators
import LoopNest.Flow.Graph
import Mathlib.Data.List.FinRange
import Mathlib.Data.List.Perm.Basic

/-!
# Depth-first search

The search visits what can be reached, and the positions that it gives to blocks.

A search is followed from state to state.  What holds of a state is that its blocks are
open, finished or unseen, that no successor of a finished block is unseen, and that every
finished block but the entry has a predecessor that is still open or was finished after
it.  When nothing is open any more, the finished blocks are the reachable ones, and the
predecessor that finished later stands earlier in the order.
-/

namespace LoopNest
namespace FlowGraph

/-!
## States of a search
-/

/-- The open blocks, innermost first: each is a successor of the next, the last is the
entry. -/
def Linked {n : Nat} (g : FlowGraph n) : List (Fin n) -> Prop
  | [] => True
  | [b] => b = g.entry
  | c :: b :: bs => c ∈ g.succs b ∧ Linked g (b :: bs)

theorem Linked.tail {n : Nat} {g : FlowGraph n} {b : Fin n} {bs : List (Fin n)}
    (h : g.Linked (b :: bs)) : g.Linked bs := by
  cases bs with
  | nil => trivial
  | cons c bs => exact h.2

theorem Linked.head {n : Nat} {g : FlowGraph n} {b : Fin n} {bs : List (Fin n)}
    (h : g.Linked (b :: bs)) : b = g.entry ∨ exists c, c ∈ bs ∧ b ∈ g.succs c := by
  cases bs with
  | nil => exact Or.inl h
  | cons c bs => exact Or.inr ⟨c, List.mem_cons_self, h.1⟩

/-- What holds in every state of a search. -/
structure Searching {n : Nat} (g : FlowGraph n) (path : List (Fin n × List (Fin n)))
    (unseen done : List (Fin n)) : Prop where
  cover : (path.map Prod.fst ++ done ++ unseen).Perm (List.finRange n)
  linked : g.Linked (path.map Prod.fst)
  listed : forall b todo, (b, todo) ∈ path -> forall s, s ∈ todo -> s ∈ g.succs b
  tried : forall b todo, (b, todo) ∈ path -> forall s, s ∈ g.succs b -> s ∈ todo ∨ s ∉ unseen
  closed : forall b, b ∈ done -> forall s, s ∈ g.succs b -> s ∉ unseen
  reached : forall b, b ∈ path.map Prod.fst ++ done -> g.Reachable b
  preceded : forall before b after, done = before ++ b :: after ->
    b = g.entry ∨ exists c, c ∈ path.map Prod.fst ++ before ∧ b ∈ g.succs c

namespace Searching

variable {n : Nat} {g : FlowGraph n} {path : List (Fin n × List (Fin n))}
  {unseen done todo : List (Fin n)} {b s : Fin n}

/-- The search starts with the entry open and all other blocks unseen. -/
theorem start (g : FlowGraph n) :
    g.Searching [(g.entry, g.succs g.entry)] ((List.finRange n).erase g.entry) [] where
  cover := (List.perm_cons_erase (List.mem_finRange g.entry)).symm
  linked := rfl
  listed := by
    intro b todo hb s hs
    cases List.mem_singleton.mp hb
    exact hs
  tried := by
    intro b todo hb s hs
    cases List.mem_singleton.mp hb
    exact Or.inl hs
  closed := by
    intro b hb
    cases hb
  reached := by
    intro b hb
    cases List.mem_singleton.mp hb
    exact g.reachable_entry
  preceded := by
    intro before b after h
    cases before <;> cases h

theorem finish (h : g.Searching ((b, []) :: path) unseen done) :
    g.Searching path unseen (b :: done) where
  cover := by
    refine List.Perm.trans ?_ h.cover
    simp
  linked := h.linked.tail
  listed := by
    intro c todo hc
    exact h.listed c todo (List.mem_cons_of_mem _ hc)
  tried := by
    intro c todo hc
    exact h.tried c todo (List.mem_cons_of_mem _ hc)
  closed := by
    intro c hc s hs
    rcases List.mem_cons.mp hc with rfl | hc
    · rcases h.tried c [] List.mem_cons_self s hs with hnil | hseen
      · cases hnil
      · exact hseen
    · exact h.closed c hc s hs
  reached := by
    intro c hc
    apply h.reached c
    simp only [List.map_cons, List.mem_append, List.mem_cons] at hc ⊢
    tauto
  preceded := by
    intro before c after heq
    cases before with
    | nil =>
        cases heq
        rcases h.linked.head with hentry | ⟨d, hd, hedge⟩
        · exact Or.inl hentry
        · exact Or.inr ⟨d, List.mem_append_left _ hd, hedge⟩
    | cons d before =>
        injection heq with hhead htail
        subst hhead
        rcases h.preceded before c after htail with hentry | ⟨d, hd, hedge⟩
        · exact Or.inl hentry
        · refine Or.inr ⟨d, ?_, hedge⟩
          simp only [List.map_cons, List.mem_append, List.mem_cons] at hd ⊢
          tauto

theorem pass (h : g.Searching ((b, s :: todo) :: path) unseen done) (hs : s ∉ unseen) :
    g.Searching ((b, todo) :: path) unseen done where
  cover := h.cover
  linked := h.linked
  listed := by
    intro c rest hc r hr
    rcases List.mem_cons.mp hc with heq | hc
    · cases heq
      exact h.listed b (s :: todo) List.mem_cons_self r (List.mem_cons_of_mem _ hr)
    · exact h.listed c rest (List.mem_cons_of_mem _ hc) r hr
  tried := by
    intro c rest hc r hr
    rcases List.mem_cons.mp hc with heq | hc
    · cases heq
      rcases h.tried b (s :: todo) List.mem_cons_self r hr with htodo | hseen
      · rcases List.mem_cons.mp htodo with rfl | htodo
        · exact Or.inr hs
        · exact Or.inl htodo
      · exact Or.inr hseen
    · exact h.tried c rest (List.mem_cons_of_mem _ hc) r hr
  closed := h.closed
  reached := h.reached
  preceded := h.preceded

theorem unseen_nodup (h : g.Searching path unseen done) : unseen.Nodup := by
  have hnodup := h.cover.nodup_iff.mpr (List.nodup_finRange n)
  exact (List.nodup_append.mp hnodup).2.1

theorem edge (h : g.Searching ((b, s :: todo) :: path) unseen done) : s ∈ g.succs b :=
  h.listed b (s :: todo) List.mem_cons_self s List.mem_cons_self

theorem discover (h : g.Searching ((b, s :: todo) :: path) unseen done) (hs : s ∈ unseen) :
    g.Searching ((s, g.succs s) :: (b, todo) :: path) (unseen.erase s) done where
  cover := by
    refine List.Perm.trans ?_ h.cover
    have hsplit := List.perm_cons_erase hs
    exact List.perm_middle.symm.trans (hsplit.symm.append_left _)
  linked := ⟨h.edge, h.linked⟩
  listed := by
    intro c rest hc r hr
    rcases List.mem_cons.mp hc with heq | hc
    · cases heq
      exact hr
    · rcases List.mem_cons.mp hc with heq | hc
      · cases heq
        exact h.listed b (s :: todo) List.mem_cons_self r (List.mem_cons_of_mem _ hr)
      · exact h.listed c rest (List.mem_cons_of_mem _ hc) r hr
  tried := by
    intro c rest hc r hr
    have hgone : s ∉ unseen.erase s := h.unseen_nodup.not_mem_erase
    rcases List.mem_cons.mp hc with heq | hc
    · cases heq
      exact Or.inl hr
    · rcases List.mem_cons.mp hc with heq | hc
      · cases heq
        rcases h.tried b (s :: todo) List.mem_cons_self r hr with htodo | hseen
        · rcases List.mem_cons.mp htodo with rfl | htodo
          · exact Or.inr hgone
          · exact Or.inl htodo
        · exact Or.inr fun hmem => hseen (List.mem_of_mem_erase hmem)
      · rcases h.tried c rest (List.mem_cons_of_mem _ hc) r hr with htodo | hseen
        · exact Or.inl htodo
        · exact Or.inr fun hmem => hseen (List.mem_of_mem_erase hmem)
  closed := by
    intro c hc r hr hmem
    exact h.closed c hc r hr (List.mem_of_mem_erase hmem)
  reached := by
    intro c hc
    have hb : g.Reachable b := h.reached b (by simp)
    rcases List.mem_cons.mp hc with rfl | hc
    · exact hb.succ h.edge
    · exact h.reached c hc
  preceded := by
    intro before c after heq
    rcases h.preceded before c after heq with hentry | ⟨d, hd, hd'⟩
    · exact Or.inl hentry
    · exact Or.inr ⟨d, List.mem_cons_of_mem _ hd, hd'⟩

/-- A search ends with nothing open. -/
theorem run (h : g.Searching path unseen done) :
    exists rest, g.Searching [] rest (g.search path unseen done) := by
  induction path, unseen, done using search.induct g with
  | case1 unseen done =>
      rw [search]
      exact ⟨unseen, h⟩
  | case2 b path unseen done ih =>
      rw [search]
      exact ih h.finish
  | case3 b s todo path unseen done hs ih =>
      rw [search, if_pos hs]
      exact ih (h.discover hs)
  | case4 b s todo path unseen done hs ih =>
      rw [search, if_neg hs]
      exact ih (h.pass hs)

end Searching

theorem head?_search {n : Nat} {g : FlowGraph n} (path : List (Fin n × List (Fin n)))
    (unseen done : List (Fin n)) (hpath : path ≠ []) :
    (g.search path unseen done).head? = (path.map Prod.fst).getLast? := by
  induction path, unseen, done using search.induct g with
  | case1 unseen done => exact absurd rfl hpath
  | case2 b path unseen done ih =>
      rw [search]
      cases path with
      | nil => simp [search]
      | cons open' path =>
          rw [ih (List.cons_ne_nil _ _)]
          simp
  | case3 b s todo path unseen done hs ih =>
      rw [search, if_pos hs, ih (List.cons_ne_nil _ _)]
      simp
  | case4 b s todo path unseen done hs ih =>
      rw [search, if_neg hs, ih (List.cons_ne_nil _ _)]
      rfl

/-!
## The order of a graph
-/

section

variable {n : Nat} (g : FlowGraph n)

theorem searching_order : exists rest, g.Searching [] rest g.order :=
  (Searching.start g).run

theorem head?_order : g.order.head? = some g.entry :=
  head?_search _ _ _ (List.cons_ne_nil _ _)

theorem nodup_order : g.order.Nodup := by
  rcases g.searching_order with ⟨rest, h⟩
  have hnodup := h.cover.nodup_iff.mpr (List.nodup_finRange n)
  exact (List.nodup_append.mp hnodup).1

theorem mem_order {b : Fin n} : b ∈ g.order <-> g.Reachable b := by
  rcases g.searching_order with ⟨rest, h⟩
  constructor
  · intro hb
    exact h.reached b hb
  · intro hb
    rcases hb with ⟨bs, hwalk⟩
    refine hwalk.closed ?_ (List.mem_of_mem_head? g.head?_order)
    intro c d hc hd
    have hcover : d ∈ g.order ++ rest := h.cover.mem_iff.mpr (List.mem_finRange d)
    rcases List.mem_append.mp hcover with hdone | hrest
    · exact hdone
    · exact absurd hrest (h.closed c hc d hd)

theorem pred_before {before after : List (Fin n)} {b : Fin n}
    (h : g.order = before ++ b :: after) (hb : b ≠ g.entry) :
    exists c, c ∈ before ∧ b ∈ g.succs c := by
  rcases g.searching_order with ⟨rest, hsearch⟩
  rcases hsearch.preceded before b after h with hentry | hpred
  · exact absurd hentry hb
  · exact hpred

end

end FlowGraph

/-!
## Positions and blocks

Dominators and loops are computed on positions but are about blocks.  This module ties
the two together: the positions of an order are its reachable blocks, one position
precedes another exactly when control can go from block to block, and a way that avoids a
position is a walk that avoids its block.
-/

namespace Skeleton

/-!
### Skeletons of orders
-/

/-- The predecessors are positions, and every position but the entry has one before it. -/
structure Rooted (s : Skeleton) : Prop where
  pred_lt : forall p q, q ∈ s.predsOf p -> q < s.size
  earlier : forall p, p ≠ 0 -> p < s.size -> exists q, q ∈ s.predsOf p ∧ q < p

/-- Position `p` can be reached from the entry without passing `a`. -/
inductive Bypass (s : Skeleton) (a : Nat) : Nat -> Prop where
  | entry : a ≠ 0 -> Bypass s a 0
  | step {q p : Nat} : Bypass s a q -> q ∈ s.predsOf p -> a ≠ p -> Bypass s a p

/-- Position `a` lies on every way from the entry to `p`. -/
def Dominates (s : Skeleton) (a p : Nat) : Prop :=
  ¬ s.Bypass a p

variable {s : Skeleton} {a p q : Nat}

theorem Bypass.ne (h : s.Bypass a p) : a ≠ p := by
  cases h with
  | entry ha => exact ha
  | step _ _ ha => exact ha

theorem Dominates.refl (s : Skeleton) (a : Nat) : s.Dominates a a :=
  fun h => h.ne rfl

theorem Dominates.eq_zero (h : s.Dominates a 0) : a = 0 := by
  by_contra ha
  exact h (Bypass.entry ha)

theorem Dominates.pred (h : s.Dominates a p) (ha : a ≠ p) (hq : q ∈ s.predsOf p) :
    s.Dominates a q := by
  intro hbypass
  exact h (Bypass.step hbypass hq ha)

/-- A dominator never stands behind what it dominates: the way through earlier
predecessors only would avoid it. -/
theorem Dominates.le (hs : s.Rooted) (hp : p < s.size) (h : s.Dominates a p) : a ≤ p := by
  induction p using Nat.strong_induction_on with
  | h p ih =>
      by_contra hlt
      have ha : a ≠ p := by lia
      by_cases hp0 : p = 0
      · subst hp0
        exact ha h.eq_zero
      · rcases hs.earlier p hp0 hp with ⟨q, hq, hqp⟩
        have hle := ih q hqp (by lia) (h.pred ha hq)
        lia

end Skeleton

namespace FlowGraph

variable {n : Nat} (g : FlowGraph n)

theorem mem_predsOf_skeleton {order : List (Fin n)} {p q : Nat} :
    q ∈ (g.skeleton order).predsOf p <->
      exists b c, order[p]? = some b ∧ order[q]? = some c ∧ b ∈ g.succs c := by
  cases hp : order[p]? with
  | none => simp [skeleton, Skeleton.predsOf, hp]
  | some b =>
      simp [skeleton, Skeleton.predsOf, hp, positionsBefore,
        List.mem_zipIdx_iff_getElem?]

@[simp] theorem size_skeleton (order : List (Fin n)) :
    (g.skeleton order).size = order.length := by
  simp [skeleton, Skeleton.size]

/-!
### The order as a table
-/

theorem order_zero : g.order[0]? = some g.entry := by
  rw [← List.head?_eq_getElem?]
  exact g.head?_order

theorem order_inj {p q : Nat} {b : Fin n} (hp : g.order[p]? = some b)
    (hq : g.order[q]? = some b) : p = q := by
  have hlt : p < g.order.length := (List.getElem?_eq_some_iff.mp hp).1
  exact (List.getElem?_inj hlt g.nodup_order).mp (hp.trans hq.symm)

theorem reachable_of_order {p : Nat} {b : Fin n} (hp : g.order[p]? = some b) :
    g.Reachable b :=
  g.mem_order.mp (List.mem_of_getElem? hp)

theorem lt_size_of_order {p : Nat} {b : Fin n} (hp : g.order[p]? = some b) :
    p < (g.skeleton g.order).size := by
  rw [size_skeleton]
  exact (List.getElem?_eq_some_iff.mp hp).1

theorem Reachable.position {g : FlowGraph n} {b : Fin n} (h : g.Reachable b) :
    exists p : Nat, g.order[p]? = some b :=
  List.mem_iff_getElem?.mp (g.mem_order.mpr h)

theorem rooted_order : (g.skeleton g.order).Rooted where
  pred_lt := by
    intro p q hq
    rcases g.mem_predsOf_skeleton.mp hq with ⟨b, c, _, hc, _⟩
    exact g.lt_size_of_order hc
  earlier := by
    intro p hp0 hp
    rw [size_skeleton] at hp
    have hsplit : g.order = g.order.take p ++ g.order[p] :: g.order.drop (p + 1) := by
      simp
    have hentry : g.order[p] ≠ g.entry := by
      intro heq
      apply hp0
      apply g.order_inj _ g.order_zero
      rw [List.getElem?_eq_getElem hp, heq]
    rcases g.pred_before hsplit hentry with ⟨c, hc, hedge⟩
    rcases List.mem_take_iff_getElem.mp hc with ⟨q, hq, hqc⟩
    refine ⟨q, ?_, by lia⟩
    apply g.mem_predsOf_skeleton.mpr
    refine ⟨g.order[p], c, List.getElem?_eq_getElem hp, ?_, hedge⟩
    rw [List.getElem?_eq_getElem (by lia), hqc]

/-!
### Ways and walks
-/

/-- A walk on which a block does not lie leads past the position of this block. -/
theorem bypass_of_walk {a p q : Nat} {b c d : Fin n} {bs : List (Fin n)}
    (hwalk : g.Walk b bs c) (hd : d ∉ bs) (ha : g.order[a]? = some d)
    (hp : g.order[p]? = some b) (hq : g.order[q]? = some c)
    (h : (g.skeleton g.order).Bypass a p) : (g.skeleton g.order).Bypass a q := by
  induction hwalk generalizing p with
  | stay b =>
      cases g.order_inj hp hq
      exact h
  | step hedge htail ih =>
      rename_i b e c bs
      have he : g.Reachable e := (g.reachable_of_order hp).succ hedge
      rcases he.position with ⟨r, hr⟩
      have har : a ≠ r := by
        intro heq
        subst heq
        have hde : d = e := by
          rw [ha] at hr
          injection hr
        subst hde
        exact hd (List.mem_cons_of_mem _ htail.head_mem)
      have hpr : p ∈ (g.skeleton g.order).predsOf r :=
        g.mem_predsOf_skeleton.mpr ⟨e, b, hr, hp, hedge⟩
      exact ih (fun hmem => hd (List.mem_cons_of_mem _ hmem)) hr hq
        (Skeleton.Bypass.step h hpr har)

theorem walk_of_bypass {a p : Nat} {b d : Fin n} (ha : g.order[a]? = some d)
    (hp : g.order[p]? = some b) (h : (g.skeleton g.order).Bypass a p) :
    exists bs, g.Walk g.entry bs b ∧ d ∉ bs := by
  induction h generalizing b with
  | entry ha0 =>
      have hb : g.entry = b := by
        rw [g.order_zero] at hp
        injection hp
      subst hb
      refine ⟨[g.entry], Walk.stay g.entry, ?_⟩
      intro hmem
      cases List.mem_singleton.mp hmem
      exact ha0 (g.order_inj ha g.order_zero)
  | step _ hedge hne ih =>
      rcases g.mem_predsOf_skeleton.mp hedge with ⟨b', c, hb', hc, hsucc⟩
      have hb : b' = b := by
        rw [hp] at hb'
        injection hb' with heq
        exact heq.symm
      subst hb
      rcases ih hc with ⟨bs, hwalk, hd⟩
      refine ⟨bs ++ [b'], hwalk.snoc hsucc, ?_⟩
      intro hmem
      rcases List.mem_append.mp hmem with hmem | hmem
      · exact hd hmem
      · cases List.mem_singleton.mp hmem
        exact hne (g.order_inj ha hp)

/-- Dominance of positions is dominance of the blocks that stand there. -/
theorem dominates_positions {a p : Nat} {b d : Fin n} (ha : g.order[a]? = some d)
    (hp : g.order[p]? = some b) :
    (g.skeleton g.order).Dominates a p <-> g.Dominates d b := by
  constructor
  · intro h
    refine ⟨g.reachable_of_order hp, ?_⟩
    intro bs hwalk
    by_contra hd
    apply h
    apply g.bypass_of_walk hwalk hd ha g.order_zero hp
    apply Skeleton.Bypass.entry
    intro ha0
    subst ha0
    rw [g.order_zero] at ha
    injection ha with heq
    subst heq
    exact hd hwalk.head_mem
  · intro h hbypass
    rcases g.walk_of_bypass ha hp hbypass with ⟨bs, hwalk, hd⟩
    exact hd (h.2 bs hwalk)

end FlowGraph

end LoopNest
