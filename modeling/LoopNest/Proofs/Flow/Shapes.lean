import LoopNest.Proofs.Flow.NaturalLoops
import LoopNest.Proofs.Flow.Search
import LoopNest.Proofs.Forest.Preorder

/-!
# Shapes of graphs

Graphs of one shape have the same order, dominators and loops.
-/

namespace LoopNest
namespace FlowGraph

/-!
## Searches of renamed graphs

A depth-first search passes over a successor that it has seen.  So it makes no difference
whether such a successor is listed, and a search of one graph is, step for step, the search
of another one whose blocks have other names, but that some steps have nothing to match.
Blocks that the search never reaches take no part.
-/

variable {alpha : Type}

/-- The list `rest` leaves out of `todo` only what a search would pass over: blocks that are
seen, and blocks that come a second time. -/
inductive Trimmed : (seen : alpha -> Prop) -> (todo rest : List alpha) -> Prop where
  | nil {seen : alpha -> Prop} : Trimmed seen [] []
  | keep {seen : alpha -> Prop} {s : alpha} {todo rest : List alpha} :
      Trimmed (fun b => b = s ∨ seen b) todo rest -> Trimmed seen (s :: todo) (s :: rest)
  | drop {seen : alpha -> Prop} {s : alpha} {todo rest : List alpha} :
      seen s -> Trimmed seen todo rest -> Trimmed seen (s :: todo) rest

theorem Trimmed.mono {seen later : alpha -> Prop} {todo rest : List alpha}
    (h : Trimmed seen todo rest) (hseen : forall b, seen b -> later b) :
    Trimmed later todo rest := by
  induction h generalizing later with
  | nil => exact Trimmed.nil
  | keep _ ih => exact Trimmed.keep (ih fun b hb => hb.imp_right (hseen b))
  | drop hs _ ih => exact Trimmed.drop (hseen _ hs) (ih hseen)

/-- The first occurrences of the blocks that pass a test are enough if the others are seen. -/
theorem trimmed_filter [BEq alpha] [LawfulBEq alpha] (seen : alpha -> Prop)
    (fresh : alpha -> Bool) (todo : List alpha) (h : forall b, fresh b = false -> seen b) :
    Trimmed seen todo (todo.filter fresh).eraseDups := by
  induction todo generalizing seen fresh with
  | nil => exact Trimmed.nil
  | cons s todo ih =>
      cases hs : fresh s with
      | false =>
          rw [List.filter_cons_of_neg (by rw [hs]; exact Bool.false_ne_true)]
          exact Trimmed.drop (h s hs) (ih seen fresh h)
      | true =>
          rw [List.filter_cons_of_pos hs, List.eraseDups_cons, List.filter_filter]
          apply Trimmed.keep
          apply ih
          intro b hb
          rcases Bool.and_eq_false_iff.mp hb with hb | hb
          · exact Or.inl (by simpa using hb)
          · exact Or.inr (h b hb)

theorem trimmed_eraseDups [BEq alpha] [LawfulBEq alpha] (seen : alpha -> Prop)
    (todo : List alpha) : Trimmed seen todo todo.eraseDups := by
  have htrimmed := trimmed_filter seen (fun _ => true) todo (by simp)
  rwa [List.filter_true] at htrimmed

/-!
### Two searches
-/

variable {n m : Nat}

/-- The reachable blocks of `g` are blocks of `k` under the names `p`, and a block has the
same successors in both, but for those that a search passes over. -/
structure Renames (g : FlowGraph n) (k : FlowGraph m) (p : Fin n -> Fin m) : Prop where
  injective : forall b c, g.Reachable b -> g.Reachable c -> p b = p c -> b = c
  entry : p g.entry = k.entry
  trimmed : forall b, g.Reachable b ->
    forall seen, Trimmed seen ((g.succs b).map p) (k.succs (p b))

/-- The open blocks of two searches are the same, and what is still to try differs only by
what will be passed over. -/
def Alongside (p : Fin n -> Fin m) (unseen : List (Fin m)) :
    List (Fin n × List (Fin n)) -> List (Fin m × List (Fin m)) -> Prop :=
  List.Forall₂ fun open' other =>
    other.1 = p open'.1 ∧ Trimmed (fun c => c ∉ unseen) (open'.2.map p) other.2

theorem Alongside.mono {p : Fin n -> Fin m} {unseen later : List (Fin m)}
    {path : List (Fin n × List (Fin n))} {other : List (Fin m × List (Fin m))}
    (h : Alongside p unseen path other) (hlater : later ⊆ unseen) :
    Alongside p later path other := by
  apply List.Forall₂.imp _ h
  intro open' other hboth
  exact ⟨hboth.1, hboth.2.mono fun c hc hmem => hc (hlater hmem)⟩

theorem Searching.reachable_todo {g : FlowGraph n} {path : List (Fin n × List (Fin n))}
    {unseen done todo : List (Fin n)} {b s : Fin n}
    (h : g.Searching ((b, s :: todo) :: path) unseen done) : g.Reachable s :=
  (h.reached b List.mem_cons_self).succ h.edge

namespace Renames

variable {g : FlowGraph n} {k : FlowGraph m} {p : Fin n -> Fin m}

theorem unseen_erase (h : g.Renames k p) {unseen : List (Fin n)} {unseen' : List (Fin m)}
    {s : Fin n} (hs : g.Reachable s) (hnodup : unseen.Nodup) (hnodup' : unseen'.Nodup)
    (hunseen : forall b, g.Reachable b -> (p b ∈ unseen' <-> b ∈ unseen)) :
    forall b, g.Reachable b -> (p b ∈ unseen'.erase (p s) <-> b ∈ unseen.erase s) := by
  intro b hb
  rw [hnodup'.mem_erase_iff, hnodup.mem_erase_iff, hunseen b hb]
  apply and_congr_left
  intro _
  exact not_congr ⟨h.injective b s hb hs, congrArg p⟩

/-- A search of the renamed graph finishes the renamed blocks in the same order. -/
theorem search_eq (h : g.Renames k p) {path : List (Fin n × List (Fin n))}
    {unseen done : List (Fin n)} (hsearch : g.Searching path unseen done)
    {other : List (Fin m × List (Fin m))} {unseen' : List (Fin m)}
    (hpath : Alongside p unseen' path other) (hnodup : unseen'.Nodup)
    (hunseen : forall b, g.Reachable b -> (p b ∈ unseen' <-> b ∈ unseen)) :
    k.search other unseen' (done.map p) = (g.search path unseen done).map p := by
  -- the induction is on the first search; where it passes over a block that the second one
  -- does not list, the second one waits
  induction path, unseen, done using search.induct g generalizing other unseen' with
  | case1 unseen done =>
      cases hpath
      rw [search, search]
  | case2 b path unseen done ih =>
      rcases hpath with _ | ⟨⟨hb, htodo⟩, hpath⟩
      rename_i first others
      rcases first with ⟨c, rest⟩
      cases hb
      cases htodo
      rw [search, search]
      exact ih hsearch.finish hpath hnodup hunseen
  | case3 b s todo path unseen done hs ih =>
      rcases hpath with _ | ⟨⟨hb, htodo⟩, hpath⟩
      rename_i first others
      rcases first with ⟨c, rest⟩
      cases hb
      have hreach := hsearch.reachable_todo
      have hs' : p s ∈ unseen' := (hunseen s hreach).mpr hs
      cases htodo with
      | drop hseen _ => exact absurd hs' hseen
      | keep htodo =>
          have hgone : forall c, c = p s ∨ c ∉ unseen' -> c ∉ unseen'.erase (p s) := by
            intro c hc hmem
            rcases (hnodup.mem_erase_iff).mp hmem with ⟨hne, hmem⟩
            exact hc.elim hne fun hseen => hseen hmem
          have hunseen' := h.unseen_erase hreach hsearch.unseen_nodup hnodup hunseen
          rw [search, if_pos hs', search, if_pos hs]
          apply ih (hsearch.discover hs) _ (hnodup.erase _) hunseen'
          apply List.Forall₂.cons ⟨rfl, h.trimmed s hreach _⟩
          apply List.Forall₂.cons ⟨rfl, htodo.mono hgone⟩
          exact Alongside.mono hpath List.erase_subset
  | case4 b s todo path unseen done hs ih =>
      rcases hpath with _ | ⟨⟨hb, htodo⟩, hpath⟩
      rename_i first others
      rcases first with ⟨c, rest⟩
      cases hb
      have hs' : p s ∉ unseen' := mt (hunseen s hsearch.reachable_todo).mp hs
      rw [search, if_neg hs]
      cases htodo with
      | drop _ htodo =>
          exact ih (hsearch.pass hs) (List.Forall₂.cons ⟨rfl, htodo⟩ hpath) hnodup hunseen
      | keep htodo =>
          rw [search, if_neg hs']
          have hseen : forall c, c = p s ∨ c ∉ unseen' -> c ∉ unseen' := by
            intro c hc
            exact hc.elim (fun heq => heq ▸ hs') id
          apply ih (hsearch.pass hs) _ hnodup hunseen
          exact List.Forall₂.cons ⟨rfl, htodo.mono hseen⟩ hpath

theorem order_eq (h : g.Renames k p) : k.order = g.order.map p := by
  have hunseen := h.unseen_erase g.reachable_entry (List.nodup_finRange n)
    (List.nodup_finRange m) fun b _ => by simp
  have hstart : Alongside p ((List.finRange m).erase k.entry)
      [(g.entry, g.succs g.entry)] [(k.entry, k.succs k.entry)] := by
    rw [← h.entry]
    exact List.Forall₂.cons ⟨rfl, h.trimmed g.entry g.reachable_entry _⟩ List.Forall₂.nil
  rw [h.entry] at hunseen
  exact h.search_eq (Searching.start g) hstart ((List.nodup_finRange m).erase _) hunseen

end Renames

end FlowGraph
end LoopNest

namespace LoopNest

/-!
## Graphs of one shape

Two graphs have one shape if the reachable blocks of one, renamed, have the successors of
the other in the same order.  Neither the numbers of blocks, nor blocks that control cannot
reach, nor repeated successors are part of the shape.  The analysis sees nothing but the
shape: it finds the same positions, the same dominators and the same loops under the same
numbers.
-/

namespace LoopForest

variable {alpha beta gamma : Type}

theorem map_map (forest : LoopForest alpha) (f : alpha -> beta) (p : beta -> gamma) :
    (forest.map f).map p = forest.map (p ∘ f) := by
  simp [map, Loop.map, Function.comp_def]

@[simp] theorem subLoops_map (forest : LoopForest alpha) (f : alpha -> beta) (id : LoopId) :
    (forest.map f).subLoops id = forest.subLoops id := by
  unfold subLoops
  rw [get?_map]
  cases forest.get? id with
  | none => rfl
  | some l => rfl

/-- The discovery order does not depend on the blocks. -/
theorem preorder_map (forest : LoopForest alpha) (f : alpha -> beta) :
    (forest.map f).preorder = forest.preorder := by
  have hvisit : forall count ids, (forest.map f).visit count ids = forest.visit count ids := by
    intro count
    induction count with
    | zero =>
        intro ids
        rw [visit, visit]
    | succ count ih =>
        intro ids
        cases ids with
        | nil => rfl
        | cons id ids => rw [visit, visit, subLoops_map, ih]
  have hsize : (forest.map f).size = forest.size := List.length_map _
  rw [preorder, hsize, hvisit]
  rfl

end LoopForest

namespace FlowGraph

variable {n m : Nat} {g : FlowGraph n} {k : FlowGraph m} {p : Fin n -> Fin m} {b c : Fin n}

/-- The graph with every successor listed once, where it comes first. -/
def simple (g : FlowGraph n) : FlowGraph n where
  entry := g.entry
  succs b := (g.succs b).eraseDups

/-- The reachable blocks of `g` have other names `p` in `k`, and there they have the same
successors in the same order of first occurrence. -/
structure SameShape (g : FlowGraph n) (k : FlowGraph m) (p : Fin n -> Fin m) : Prop where
  injective : forall b c, g.Reachable b -> g.Reachable c -> p b = p c -> b = c
  entry : p g.entry = k.entry
  succs : forall b, g.Reachable b ->
    (k.succs (p b)).eraseDups = ((g.succs b).map p).eraseDups

/-- The analysis of `k` is the analysis of `g` with the blocks renamed by `p`. -/
structure SameAnalysis (g : FlowGraph n) (k : FlowGraph m) (p : Fin n -> Fin m) : Prop where
  reachable : forall c, k.Reachable c <-> exists b, g.Reachable b ∧ p b = c
  order : k.analyze.order = g.analyze.order.map p
  idom : forall b, g.Reachable b -> k.analyze.idom? (p b) = (g.analyze.idom? b).map p
  dominates : forall b c, g.Reachable b -> g.Reachable c ->
    k.analyze.dominates (p b) (p c) = g.analyze.dominates b c
  forest : k.forest = g.forest.map p
  preorder : k.forest.preorder = g.forest.preorder
  loopFor : forall b, g.Reachable b -> k.forest.loopFor? (p b) = g.forest.loopFor? b

/-!
### Order
-/

theorem renames_simple (k : FlowGraph m) : k.Renames k.simple id where
  injective := fun _ _ _ _ h => h
  entry := rfl
  trimmed := by
    intro b _ seen
    rw [List.map_id]
    exact trimmed_eraseDups seen (k.succs b)

namespace SameShape

variable (h : g.SameShape k p)
include h

theorem renames : g.Renames k.simple p where
  injective := h.injective
  entry := h.entry
  trimmed := by
    intro b hb seen
    show Trimmed seen _ (k.succs (p b)).eraseDups
    rw [h.succs b hb]
    exact trimmed_eraseDups seen _

theorem order_eq : k.order = g.order.map p := by
  have hsimple := k.renames_simple.order_eq
  rw [List.map_id] at hsimple
  rw [← hsimple]
  exact h.renames.order_eq

theorem order_getElem? (i : Nat) : k.order[i]? = g.order[i]?.map p := by
  rw [h.order_eq, List.getElem?_map]

theorem reachable_iff {c : Fin m} : k.Reachable c <-> exists b, g.Reachable b ∧ p b = c := by
  rw [← k.mem_order, h.order_eq, List.mem_map]
  simp only [g.mem_order]

theorem mem_succs (hb : g.Reachable b) (hc : g.Reachable c) :
    p c ∈ k.succs (p b) <-> c ∈ g.succs b := by
  rw [← List.mem_eraseDups, h.succs b hb, List.mem_eraseDups, List.mem_map]
  constructor
  · intro hcase
    rcases hcase with ⟨d, hd, heq⟩
    rw [← h.injective d c (hb.succ hd) hc heq]
    exact hd
  · intro hmem
    exact ⟨c, hmem, rfl⟩

/-!
### Positions
-/

theorem positionsBefore_eq (hb : g.Reachable b) :
    positionsBefore (k.order.map k.succs) (p b) = positionsBefore (g.order.map g.succs) b := by
  unfold positionsBefore
  rw [h.order_eq, List.map_map, List.zipIdx_map, List.zipIdx_map, List.filter_map,
    List.filter_map, List.map_map, List.map_map]
  apply congrArg
  apply List.filter_congr
  intro entry hentry
  have hmem : entry.1 ∈ g.order := List.fst_mem_of_mem_zipIdx hentry
  rw [Bool.eq_iff_iff]
  simpa using h.mem_succs (g.mem_order.mp hmem) hb

theorem skeleton_eq : k.skeleton k.order = g.skeleton g.order := by
  unfold skeleton
  apply congrArg Skeleton.mk
  apply congrArg List.toArray
  conv => lhs; arg 2; rw [h.order_eq]
  rw [List.map_map]
  apply List.map_congr_left
  intro b hb
  exact h.positionsBefore_eq (g.mem_order.mp hb)

theorem tree_eq : k.analyze.tree = g.analyze.tree :=
  congrArg Skeleton.dominators h.skeleton_eq

theorem position?_eq (hb : g.Reachable b) : k.analyze.position? (p b) = g.analyze.position? b := by
  apply Option.ext
  intro i
  rw [k.position?_eq_some, g.position?_eq_some, h.order_getElem?, Option.map_eq_some_iff]
  constructor
  · intro hcase
    rcases hcase with ⟨c, hc, heq⟩
    rw [← h.injective c b (g.reachable_of_order hc) hb heq]
    exact hc
  · intro hi
    exact ⟨b, hi, rfl⟩

/-!
### Answers
-/

theorem idom?_eq (hb : g.Reachable b) : k.analyze.idom? (p b) = (g.analyze.idom? b).map p := by
  have hfind : forall q, k.analyze.order[q]? = g.analyze.order[q]?.map p := h.order_getElem?
  unfold Analysis.idom?
  rw [h.position?_eq hb, h.tree_eq]
  cases g.analyze.position? b with
  | none => rfl
  | some i =>
      show (if i = 0 then none else _) = Option.map p (if i = 0 then none else _)
      split
      · rfl
      · cases g.analyze.tree.parent? i with
        | none => rfl
        | some q => exact hfind q

theorem dominates_eq (hb : g.Reachable b) (hc : g.Reachable c) :
    k.analyze.dominates (p b) (p c) = g.analyze.dominates b c := by
  unfold Analysis.dominates
  rw [h.position?_eq hb, h.position?_eq hc, h.tree_eq]

theorem blockAt_eq (i : Nat) : k.blockAt k.order i = p (g.blockAt g.order i) := by
  unfold blockAt
  rw [h.order_eq, ← h.entry, List.getD_eq_getElem?_getD, List.getD_eq_getElem?_getD,
    List.getElem?_map, Option.getD_map]

theorem forest_eq : k.forest = g.forest.map p := by
  have hskeleton : k.skeleton k.analyze.order = g.skeleton g.analyze.order := h.skeleton_eq
  have hblocks : k.blockAt k.analyze.order = p ∘ g.blockAt g.analyze.order :=
    funext h.blockAt_eq
  unfold forest forestOf
  rw [hskeleton, hblocks, h.tree_eq, LoopForest.map_map]

theorem loopFor?_eq (hb : g.Reachable b) :
    k.forest.loopFor? (p b) = g.forest.loopFor? b := by
  have hpartitioned : g.forest.Partitioned :=
    LoopForest.Partitioned.map g.separates_blockAt g.laminar_loops.partitioned_forest
  rw [h.forest_eq]
  apply LoopForest.lookup_map
  intro entry hentry heq
  rcases hpartitioned.covers_of_innermost hentry with ⟨i, l, hl, hmem⟩
  exact h.injective b entry.1 hb ((mem_blocks_iff hl).mp hmem).1 heq

end SameShape

/-- The analysis of a graph depends on its shape only. -/
theorem analysis_of_shape (h : g.SameShape k p) : g.SameAnalysis k p where
  reachable := fun _ => h.reachable_iff
  order := h.order_eq
  idom := fun _ hb => h.idom?_eq hb
  dominates := fun _ _ hb hc => h.dominates_eq hb hc
  forest := h.forest_eq
  preorder := by
    rw [h.forest_eq]
    exact LoopForest.preorder_map g.forest p
  loopFor := fun _ hb => h.loopFor?_eq hb

def nestGraph : FlowGraph 5 where
  entry := 0
  succs b := [[1], [2, 4], [2, 3], [1], []][b]

/-- The graph `nestGraph` with other numbers, with repeated edges, and with a block that is
unreachable but leads into both loops. -/
def shuffledGraph : FlowGraph 6 where
  entry := 5
  succs b := [[0, 4, 0], [], [0, 1, 0, 1], [0, 2, 5], [2, 2], [2]][b]

def shuffle (b : Fin 5) : Fin 6 :=
  [5, 2, 0, 4, 1][b]

theorem sameShape_shuffle : nestGraph.SameShape shuffledGraph shuffle := by
  have hinjective : forall b c, shuffle b = shuffle c -> b = c := by decide
  have hsuccs : forall b, (shuffledGraph.succs (shuffle b)).eraseDups =
      ((nestGraph.succs b).map shuffle).eraseDups := by decide
  exact ⟨fun b c _ _ => hinjective b c, rfl, fun b _ => hsuccs b⟩

theorem sameAnalysis_shuffledGraph :
    nestGraph.SameShape shuffledGraph shuffle ∧ nestGraph.SameAnalysis shuffledGraph shuffle :=
  ⟨sameShape_shuffle, analysis_of_shape sameShape_shuffle⟩

end FlowGraph

end LoopNest
