import LoopNest.Proofs.Flow.Dominance
import LoopNest.Proofs.Flow.Forests
import LoopNest.Proofs.Flow.Loops
import Mathlib.Data.Fintype.Card

/-!
# The loops of a graph

The forest of a graph is told in terms of walks.  Its loops are the natural loops: a header
has a tail that it dominates, and the body is what reaches a tail without passing the
header.  Blocks that control cannot reach are in no loop, even if they lead into one.
-/

namespace LoopNest
namespace FlowGraph

variable {n : Nat} (g : FlowGraph n)

/-- The edge from `t` closes a loop at `h`. -/
def Tail (h t : Fin n) : Prop :=
  g.Reachable t ∧ h ∈ g.succs t ∧ g.Dominates h t

/-- From `b` control can go to a tail of `h` without passing `h`. -/
def ReturnsTo (h b : Fin n) : Prop :=
  exists t bs, g.Tail h t ∧ g.Walk b bs t ∧ h ∉ bs

variable {g} {p q a : Nat} {b c h : Fin n} {i j : LoopId}

theorem Tail.reachable {t : Fin n} (ht : g.Tail h t) : g.Reachable h :=
  ht.1.succ ht.2.1

/-!
## Tails and bodies at positions
-/

theorem mem_tails_positions (ha : g.order[a]? = some h) (hp : g.order[p]? = some b) :
    p ∈ (g.skeleton g.order).tails g.analyze.tree a <-> g.Tail h b := by
  rw [Skeleton.mem_tails g.rooted_order g.settled_tree, g.dominates_positions ha hp,
    mem_predsOf_skeleton]
  constructor
  · intro hcase
    rcases hcase with ⟨⟨h', b', ha', hp', hedge⟩, hdom⟩
    rw [ha] at ha'
    rw [hp] at hp'
    cases ha'
    cases hp'
    exact ⟨g.reachable_of_order hp, hedge, hdom⟩
  · intro hcase
    rcases hcase with ⟨_, hedge, hdom⟩
    exact ⟨⟨h, b, ha, hp, hedge⟩, hdom⟩

theorem returnsTo_of_returns (ha : g.order[a]? = some h) (hp : g.order[p]? = some b)
    (hreturns : (g.skeleton g.order).Returns a
      ((g.skeleton g.order).tails g.analyze.tree a) p) : g.ReturnsTo h b := by
  have havoid : forall p b, g.order[p]? = some b -> p ≠ a -> h ≠ b := by
    intro p b hp hne heq
    subst heq
    exact hne (g.order_inj hp ha)
  induction hreturns generalizing b with
  | tail htail hne =>
      refine ⟨b, [b], (mem_tails_positions ha hp).mp htail, Walk.stay b, ?_⟩
      exact List.not_mem_cons_of_ne_of_not_mem (havoid _ b hp hne) List.not_mem_nil
  | step _ hedge hne ih =>
      rcases g.mem_predsOf_skeleton.mp hedge with ⟨c, b', hc, hb', hsucc⟩
      rw [hp] at hb'
      cases hb'
      rcases ih hc with ⟨t, bs, ht, hwalk, hbs⟩
      refine ⟨t, b :: bs, ht, Walk.step hsucc hwalk, ?_⟩
      exact List.not_mem_cons_of_ne_of_not_mem (havoid _ b hp hne) hbs

theorem returns_of_returnsTo (ha : g.order[a]? = some h) (hp : g.order[p]? = some b)
    (hreturns : g.ReturnsTo h b) :
    (g.skeleton g.order).Returns a ((g.skeleton g.order).tails g.analyze.tree a) p := by
  rcases hreturns with ⟨t, bs, ht, hwalk, hbs⟩
  have hne : forall p b, g.order[p]? = some b -> h ≠ b -> p ≠ a := by
    intro p b hp hhb heq
    subst heq
    rw [ha] at hp
    cases hp
    exact hhb rfl
  induction hwalk generalizing p with
  | stay b =>
      have hhb : h ≠ b := List.ne_of_not_mem_cons hbs
      exact Skeleton.Returns.tail ((mem_tails_positions ha hp).mpr ht) (hne p b hp hhb)
  | step hedge hwalk ih =>
      rename_i b c t bs
      have hhb : h ≠ b := List.ne_of_not_mem_cons hbs
      rcases ((g.reachable_of_order hp).succ hedge).position with ⟨q, hq⟩
      have hreturns := ih hq ht (List.not_mem_of_not_mem_cons hbs)
      have hpred := g.mem_predsOf_skeleton.mpr ⟨c, b, hq, hp, hedge⟩
      exact Skeleton.Returns.step hreturns hpred (hne p b hp hhb)

/-!
## The loops of the forest
-/

variable (g)

/-- The natural loops of the graph at positions of its order. -/
def loops : List NaturalLoop :=
  (g.skeleton g.order).naturalLoops g.analyze.tree

theorem laminar_loops : NaturalLoop.Laminar (g.skeleton g.order).size g.loops :=
  Skeleton.laminar_naturalLoops g.rooted_order g.settled_tree

variable {g} {k : NaturalLoop} {l : Loop (Fin n)}

theorem blockAt_eq (hp : g.order[p]? = some b) : g.blockAt g.order p = b := by
  rw [blockAt, List.getD_eq_getElem?_getD, hp]
  rfl

theorem order_blockAt (hp : p < (g.skeleton g.order).size) :
    g.order[p]? = some (g.blockAt g.order p) := by
  rw [size_skeleton] at hp
  rw [blockAt_eq (List.getElem?_eq_getElem hp)]
  exact List.getElem?_eq_getElem hp

theorem get?_forest_eq_some :
    g.forest.get? i = some l <-> exists k, g.loops[i]? = some k ∧
      (NaturalLoop.toLoop (g.skeleton g.order).size g.loops i k).map (g.blockAt g.order) = l := by
  refine LoopForest.get?_map_eq_some.trans ?_
  constructor
  · intro hcase
    rcases hcase with ⟨k', hk', rfl⟩
    rcases NaturalLoop.get?_forest_eq_some.mp hk' with ⟨k, hk, rfl⟩
    exact ⟨k, hk, rfl⟩
  · intro hcase
    rcases hcase with ⟨k, hk, rfl⟩
    exact ⟨_, NaturalLoop.get?_forest_eq_some.mpr ⟨k, hk, rfl⟩, rfl⟩

theorem order_of_mem_body (hk : k ∈ g.loops) (hp : p ∈ k.body) :
    g.order[p]? = some (g.blockAt g.order p) :=
  order_blockAt (g.laminar_loops.lt_size k hk p hp)

theorem order_header (hk : k ∈ g.loops) :
    g.order[k.header]? = some (g.blockAt g.order k.header) :=
  order_of_mem_body hk (g.laminar_loops.header_mem k hk)

/-- A loop holds its header and the blocks from which control returns to it. -/
theorem mem_blocks_iff (hl : g.forest.get? i = some l) :
    b ∈ l.blocks <-> g.Reachable b ∧ (b = l.header ∨ g.ReturnsTo l.header b) := by
  rcases get?_forest_eq_some.mp hl with ⟨k, hget, rfl⟩
  have hk : k ∈ g.loops := List.mem_of_getElem? hget
  have hheader := order_header hk
  have hbody := fun p => Skeleton.mem_loop_body (p := p) g.rooted_order g.settled_tree hk
  constructor
  · intro hb
    rcases List.mem_map.mp hb with ⟨p, hp, rfl⟩
    have horder := order_of_mem_body hk hp
    refine ⟨g.reachable_of_order horder, ?_⟩
    rcases ((hbody p).mp hp).2 with rfl | hreturns
    · exact Or.inl rfl
    · exact Or.inr (returnsTo_of_returns hheader horder hreturns)
  · intro hcase
    rcases hcase with ⟨hreach, hcase⟩
    rcases hreach.position with ⟨p, hp⟩
    refine List.mem_map.mpr ⟨p, (hbody p).mpr ⟨g.lt_size_of_order hp, ?_⟩, blockAt_eq hp⟩
    rcases hcase with rfl | hreturns
    · exact Or.inl (g.order_inj hp hheader)
    · exact Or.inr (returns_of_returnsTo hheader hp hreturns)

theorem exists_tail (hl : g.forest.get? i = some l) : exists t, g.Tail l.header t := by
  rcases get?_forest_eq_some.mp hl with ⟨k, hget, rfl⟩
  have hk : k ∈ g.loops := List.mem_of_getElem? hget
  rcases List.exists_mem_of_ne_nil _ (Skeleton.mem_naturalLoops.mp hk).2.1 with ⟨x, hx⟩
  have hpred := ((Skeleton.mem_tails g.rooted_order g.settled_tree).mp hx).1
  have horder := order_blockAt (g.rooted_order.pred_lt _ x hpred)
  exact ⟨_, (mem_tails_positions (order_header hk) horder).mp hx⟩

theorem exists_loop {t : Fin n} (ht : g.Tail h t) :
    exists i l, g.forest.get? i = some l ∧ l.header = h := by
  rcases ht.reachable.position with ⟨a, ha⟩
  rcases ht.1.position with ⟨p, hp⟩
  have htail := (mem_tails_positions ha hp).mpr ht
  rcases Skeleton.exists_naturalLoop (g.lt_size_of_order ha) (List.ne_nil_of_mem htail) with
    ⟨k, hk, rfl⟩
  rcases List.mem_iff_getElem?.mp hk with ⟨i, hi⟩
  exact ⟨i, _, get?_forest_eq_some.mpr ⟨k, hi, rfl⟩, blockAt_eq ha⟩

/-- Loops are numbered as their headers are ordered. -/
theorem header_positions {k l : Loop (Fin n)} (hij : i < j) (hk : g.forest.get? i = some k)
    (hl : g.forest.get? j = some l) :
    exists p q : Nat, g.order[p]? = some k.header ∧ g.order[q]? = some l.header ∧ p < q := by
  rcases get?_forest_eq_some.mp hk with ⟨k', hk', rfl⟩
  rcases get?_forest_eq_some.mp hl with ⟨l', hl', rfl⟩
  exact ⟨k'.header, l'.header, order_header (List.mem_of_getElem? hk'),
    order_header (List.mem_of_getElem? hl'), g.laminar_loops.header_lt hk' hl' hij⟩

theorem header_inj {k l : Loop (Fin n)} (hk : g.forest.get? i = some k)
    (hl : g.forest.get? j = some l) (heq : k.header = l.header) : i = j := by
  by_contra hne
  rcases Nat.lt_or_gt_of_ne hne with hlt | hlt
  · rcases header_positions hlt hk hl with ⟨p, q, hp, hq, hpq⟩
    rw [heq] at hp
    exact ne_of_lt hpq (g.order_inj hp hq)
  · rcases header_positions hlt hl hk with ⟨p, q, hp, hq, hpq⟩
    rw [← heq] at hp
    exact ne_of_lt hpq (g.order_inj hp hq)

/-- A graph has at most as many loops as blocks. -/
theorem size_forest_le (g : FlowGraph n) : g.forest.size ≤ n := by
  have hnodup : (g.forest.loops.map Loop.header).Nodup := by
    rw [List.nodup_iff_getElem?_ne_getElem?]
    intro i j hij hj heq
    rw [List.length_map] at hj
    rw [List.getElem?_map, List.getElem?_map] at heq
    have hi : i < g.forest.loops.length := Nat.lt_trans hij hj
    have hk : g.forest.get? i = some g.forest.loops[i] := List.getElem?_eq_getElem hi
    have hl : g.forest.get? j = some g.forest.loops[j] := List.getElem?_eq_getElem hj
    rw [List.getElem?_eq_getElem hi, List.getElem?_eq_getElem hj, Option.map_some, Option.map_some,
      Option.some.injEq] at heq
    exact Nat.ne_of_lt hij (header_inj hk hl heq)
  have hle := hnodup.length_le_card
  rwa [List.length_map, Fintype.card_fin] at hle

theorem map_blockAt_range :
    (List.range (g.skeleton g.order).size).map (g.blockAt g.order) = g.order := by
  rw [size_skeleton]
  apply List.ext_getElem?
  intro p
  by_cases hp : p < g.order.length
  · have horder := g.order_blockAt (p := p) (by rwa [size_skeleton])
    rw [List.getElem?_map, List.getElem?_range hp, horder]
    rfl
  · rw [List.getElem?_eq_none (by simpa using hp), List.getElem?_eq_none (by lia)]

theorem blocks_sublist (hl : g.forest.get? i = some l) : l.blocks.Sublist g.order := by
  rcases get?_forest_eq_some.mp hl with ⟨k, hget, rfl⟩
  have hk : k ∈ g.loops := List.mem_of_getElem? hget
  have hsorted := g.laminar_loops.sorted_body k hk
  have hsub : k.body.Sublist (List.range (g.skeleton g.order).size) := by
    apply NaturalLoop.sublist_of_sorted hsorted List.pairwise_lt_range
    intro p hp
    exact List.mem_range.mpr (g.laminar_loops.lt_size k hk p hp)
  have hblocks := hsub.map (g.blockAt g.order)
  rw [map_blockAt_range] at hblocks
  exact hblocks

theorem head?_blocks (hl : g.forest.get? i = some l) : l.blocks.head? = some l.header := by
  rcases get?_forest_eq_some.mp hl with ⟨k, hget, rfl⟩
  have hk : k ∈ g.loops := List.mem_of_getElem? hget
  have hhead := NaturalLoop.head?_of_sorted (g.laminar_loops.sorted_body k hk)
    (g.laminar_loops.header_mem k hk) (g.laminar_loops.header_le k hk)
  simp [Loop.map, NaturalLoop.toLoop, hhead]

variable (g)

/-- The loops of the forest are the natural loops of the graph, numbered as their headers
are ordered, and a loop lists the reachable blocks from which control returns to it. -/
theorem forest_natural_loops :
    (forall h, g.Reachable h ∧ (exists t, g.Tail h t) ->
      ∃! i, exists l, g.forest.get? i = some l ∧ l.header = h) ∧
    (forall i l, g.forest.get? i = some l ->
      g.Reachable l.header ∧ exists t, g.Tail l.header t) ∧
    (forall i j k l, i < j -> g.forest.get? i = some k -> g.forest.get? j = some l ->
      exists p q, g.analyze.position? k.header = some p ∧
        g.analyze.position? l.header = some q ∧ p < q) ∧
    (forall i l, g.forest.get? i = some l ->
      (forall b, b ∈ l.blocks <-> g.Reachable b ∧ (b = l.header ∨ g.ReturnsTo l.header b)) ∧
      l.blocks.Sublist g.analyze.order ∧ l.blocks.Nodup ∧ l.blocks.head? = some l.header) := by
  refine ⟨?_, ?_, ?_, ?_⟩
  · intro h hcase
    rcases hcase with ⟨_, t, ht⟩
    rcases exists_loop ht with ⟨i, l, hl, hheader⟩
    refine ⟨i, ⟨l, hl, hheader⟩, ?_⟩
    intro j hcase
    rcases hcase with ⟨k, hk, hheader'⟩
    exact header_inj hk hl (hheader'.trans hheader.symm)
  · intro i l hl
    rcases exists_tail hl with ⟨t, ht⟩
    exact ⟨ht.reachable, t, ht⟩
  · intro i j k l hij hk hl
    rcases header_positions hij hk hl with ⟨p, q, hp, hq, hpq⟩
    exact ⟨p, q, g.position?_eq_some.mpr hp, g.position?_eq_some.mpr hq, hpq⟩
  · intro i l hl
    have hsub := blocks_sublist hl
    exact ⟨fun b => mem_blocks_iff hl, hsub, hsub.nodup g.nodup_order, head?_blocks hl⟩

/-- Blocks 0 and 1 form a loop, and the unreachable block 2 leads into it. -/
def strayGraph : FlowGraph 3 where
  entry := 0
  succs := fun b => if b = 1 then [0] else [1]

theorem strayGraph_tail : strayGraph.Tail 0 1 := by
  have hedge : (1 : Fin 3) ∈ strayGraph.succs 0 := List.mem_singleton.mpr rfl
  have hreach : strayGraph.Reachable 1 := strayGraph.reachable_entry.succ hedge
  exact ⟨hreach, List.mem_singleton.mpr rfl, hreach, fun bs hwalk => hwalk.head_mem⟩

theorem strayGraph_unreachable : ¬ strayGraph.Reachable 2 := by
  intro hcase
  rcases hcase with ⟨bs, hwalk⟩
  have hclosed : forall c d, c ≠ 2 -> d ∈ strayGraph.succs c -> d ≠ 2 := by decide
  exact hwalk.closed hclosed (by decide) rfl

/-- Without reachability the description of blocks fails: the stray block returns to the
loop but is not in it. -/
theorem stray_block_outside :
    ¬ forall i l, strayGraph.forest.get? i = some l ->
      forall b, b ∈ l.blocks <-> b = l.header ∨ strayGraph.ReturnsTo l.header b := by
  intro hall
  rcases exists_loop strayGraph_tail with ⟨i, l, hl, hheader⟩
  have hreturns : strayGraph.ReturnsTo l.header 2 := by
    rw [hheader]
    have hedge : (1 : Fin 3) ∈ strayGraph.succs 2 := List.mem_singleton.mpr rfl
    exact ⟨1, [2, 1], strayGraph_tail, Walk.step hedge (Walk.stay 1), by decide⟩
  have hmem := (hall i l hl 2).mpr (Or.inr hreturns)
  exact strayGraph_unreachable ((mem_blocks_iff hl).mp hmem).1

/-!
## Nesting and ownership
-/

theorem separates_blockAt :
    LoopForest.Separates (NaturalLoop.forest (g.skeleton g.order).size g.loops)
      (g.blockAt g.order) := by
  intro i j k' l' hk' hl' p q hp hq heq
  rcases NaturalLoop.get?_forest_eq_some.mp hk' with ⟨k, hk, rfl⟩
  rcases NaturalLoop.get?_forest_eq_some.mp hl' with ⟨l, hl, rfl⟩
  have hp' := order_of_mem_body (List.mem_of_getElem? hk) hp
  have hq' := order_of_mem_body (List.mem_of_getElem? hl) hq
  rw [heq] at hp'
  exact g.order_inj hp' hq'

/-- The loops of a graph list their blocks in the order of the graph. -/
theorem ordered_forest : g.forest.Ordered where
  head := fun _ _ hl => head?_blocks hl
  sublist := by
    intro i j k' l' hk' hl' hsub
    rcases get?_forest_eq_some.mp hk' with ⟨k, hk, rfl⟩
    rcases get?_forest_eq_some.mp hl' with ⟨l, hl, rfl⟩
    have hsorted := g.laminar_loops.sorted_body
    have hbody := (g.separates_blockAt.subset_map
      (NaturalLoop.get?_forest_eq_some.mpr ⟨k, hk, rfl⟩)
      (NaturalLoop.get?_forest_eq_some.mpr ⟨l, hl, rfl⟩)).mp hsub
    have hsublist := NaturalLoop.sublist_of_sorted (hsorted k (List.mem_of_getElem? hk))
      (hsorted l (List.mem_of_getElem? hl)) hbody
    exact hsublist.map _

/-- The loops of a graph nest. -/
theorem forest_nested : g.forest.Nested :=
  LoopForest.Nested.map g.separates_blockAt g.laminar_loops.nested_forest

/-- Every block of a graph that is in a loop is owned by one loop, the innermost one; an
unreachable block is in no loop. -/
theorem forest_partitioned :
    g.forest.Partitioned ∧ forall b, ¬ g.Reachable b -> g.forest.loopFor? b = none := by
  have hpartitioned : g.forest.Partitioned :=
    LoopForest.Partitioned.map g.separates_blockAt g.laminar_loops.partitioned_forest
  refine ⟨hpartitioned, fun b hb => (hpartitioned.loopFor_eq_none b).mpr ?_⟩
  intro hcase
  rcases hcase with ⟨i, l, hl, hmem⟩
  exact hb ((mem_blocks_iff hl).mp hmem).1

end FlowGraph
end LoopNest
