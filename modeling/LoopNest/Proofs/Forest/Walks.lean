import LoopNest.CommandLine.Run
import LoopNest.Proofs.Flow.NaturalLoops
import LoopNest.Proofs.Forest.Preorder

/-!
# Walks over a forest

The loops of a forest in the order in which they are shown.
-/

namespace LoopNest
namespace LoopForest

/-!
## Walks through a forest

There are two ways to go through a forest without a bound on the number of steps: with a stack of
the loops still to visit, or by recursion into the sub-loops of each loop.  They list the same
loops.  In a nested forest both come to an end with the discovery order, in which every loop stands
once and directly before the loops below it.
-/

variable {beta : Type}

/-- With `stack` still to visit, a walk lists `out` and ends: it takes the loop at the top off the
stack and puts its sub-loops there. -/
inductive Pops (forest : LoopForest beta) : (stack out : List LoopId) -> Prop where
  | done : Pops forest [] []
  | pop {i : LoopId} {l : Loop beta} {stack out : List LoopId} :
      forest.get? i = some l -> Pops forest (l.subLoops ++ stack) out ->
      Pops forest (i :: stack) (i :: out)

/-- The recursion into `ids` in turn lists `out`: each loop and then what the recursion into its
sub-loops lists. -/
inductive Descends (forest : LoopForest beta) : (ids out : List LoopId) -> Prop where
  | nil : Descends forest [] []
  | cons {i : LoopId} {l : Loop beta} {ids below out : List LoopId} :
      forest.get? i = some l -> Descends forest l.subLoops below -> Descends forest ids out ->
      Descends forest (i :: ids) (i :: (below ++ out))

/-- Loop `j` is below loop `i`: some number of steps to the parent lead from `j` to `i`. -/
def Below (forest : LoopForest beta) (j i : LoopId) : Prop :=
  exists levels, forest.ancestor? (levels + 1) j = some i

/-- A list goes through a forest depth first: every loop is in it once, directly before the loops
below it, and loops with one parent, or without one, are in the order that the forest gives. -/
structure DepthFirst (forest : LoopForest beta) (ids : List LoopId) : Prop where
  perm : ids.Perm (List.range forest.size)
  block : forall i, i < forest.size -> exists before below after,
    ids = before ++ i :: (below ++ after) ∧ (forall j, j ∈ below <-> forest.Below j i) ∧
      below.filter (fun j => decide (forest.parent? j = some i)) = forest.subLoops i
  top : ids.filter (fun i => decide (forest.parent? i = none)) = forest.topLevel

variable {forest : LoopForest beta} {i j k : LoopId} {ids out more out' : List LoopId}
  {levels : Nat}

/-!
### The stack and the recursion
-/

theorem Descends.append (h : forest.Descends ids out) (hmore : forest.Descends more out') :
    forest.Descends (ids ++ more) (out ++ out') := by
  induction h with
  | nil => exact hmore
  | cons hl hbelow _ _ ih =>
      rw [List.cons_append, List.cons_append, List.append_assoc]
      exact Descends.cons hl hbelow ih

theorem Descends.split (h : forest.Descends (ids ++ more) out) :
    exists front back, out = front ++ back ∧ forest.Descends ids front ∧
      forest.Descends more back := by
  induction ids generalizing out with
  | nil => exact ⟨[], out, rfl, Descends.nil, h⟩
  | cons i ids ih =>
      cases h with
      | cons hl hbelow hrest =>
          rcases ih hrest with ⟨front, back, rfl, hfront, hback⟩
          refine ⟨_, back, ?_, Descends.cons hl hbelow hfront, hback⟩
          rw [List.cons_append, List.append_assoc]

theorem Descends.unique (h : forest.Descends ids out) (h' : forest.Descends ids out') :
    out = out' := by
  induction h generalizing out' with
  | nil =>
      cases h'
      rfl
  | cons hl _ _ ihBelow ih =>
      cases h' with
      | cons hl' hbelow' hrest' =>
          cases hl.symm.trans hl'
          rw [ihBelow hbelow', ih hrest']

theorem Pops.append (h : forest.Descends ids out) (hmore : forest.Pops more out') :
    forest.Pops (ids ++ more) (out ++ out') := by
  induction h generalizing more out' with
  | nil => exact hmore
  | cons hl _ _ ihBelow ih =>
      rw [List.cons_append, List.cons_append, List.append_assoc]
      exact Pops.pop hl (ihBelow (ih hmore))

/-- The stack and the recursion list the same loops, in any forest. -/
theorem pops_iff_descends : forest.Pops ids out <-> forest.Descends ids out := by
  constructor
  · intro h
    induction h with
    | done => exact Descends.nil
    | pop hl _ ih =>
        rcases ih.split with ⟨front, back, rfl, hfront, hback⟩
        exact Descends.cons hl hfront hback
  · intro h
    have hpops := Pops.append h Pops.done
    rwa [List.append_nil, List.append_nil] at hpops

theorem subLoops_of_get? {l : Loop beta} (hl : forest.get? i = some l) :
    forest.subLoops i = l.subLoops := by
  rw [subLoops, hl]

/-- Above a loop that has a loop below it there is a parent, and it is no smaller. -/
theorem exists_parent_of_ancestor (h : forest.ancestor? (levels + 1) j = some i) :
    exists k, forest.parent? j = some k ∧ forest.ancestor? levels k = some i := by
  induction levels generalizing i with
  | zero => exact ⟨i, h, rfl⟩
  | succ levels ih =>
      rcases Option.bind_eq_some_iff.mp h with ⟨q, hq, hparent⟩
      rcases ih hq with ⟨k, hk, hanc⟩
      refine ⟨k, hk, ?_⟩
      rw [ancestor?, hanc]
      exact hparent

namespace Nested

variable [DecidableEq beta] (h : forest.Nested)
include h

/-- The recursion ends, since sub-loops have greater numbers. -/
theorem descends_subtrees (hids : forall i, i ∈ ids -> i < forest.size ∧ forest.size ≤ i + levels) :
    forest.Descends ids (ids.flatMap (forest.subtree levels)) := by
  induction levels generalizing ids with
  | zero =>
      cases ids with
      | nil => exact Descends.nil
      | cons i ids =>
          have hi := hids i List.mem_cons_self
          lia
  | succ levels ihLevels =>
      induction ids with
      | nil => exact Descends.nil
      | cons i ids ih =>
          rw [List.forall_mem_cons] at hids
          rcases get?_of_lt_size hids.1.1 with ⟨l, hl⟩
          rw [List.flatMap_cons, subtree, List.cons_append, subLoops_of_get? hl]
          refine Descends.cons hl (ihLevels fun k hk => ?_) (ih hids.2)
          have hparent := h.mem_subLoops_iff.mp (subLoops_of_get? hl ▸ hk)
          have hlt := h.parent?_lt hparent
          exact ⟨lt_size_of_parent hparent, by lia⟩

theorem descends_preorder : forest.Descends forest.topLevel forest.preorder := by
  rw [h.preorder_eq_outline]
  exact h.descends_subtrees fun i hi => ⟨(h.mem_topLevel_iff.mp hi).1, Nat.le_add_left _ _⟩

theorem descends_iff : forest.Descends forest.topLevel out <-> out = forest.preorder := by
  constructor
  · intro hout
    exact hout.unique h.descends_preorder
  · intro heq
    exact heq ▸ h.descends_preorder

/-!
### The list
-/

theorem perm_preorder : forest.preorder.Perm (List.range forest.size) := by
  rw [h.preorder_eq_outline]
  apply (List.perm_ext_iff_of_nodup h.nodup_outline List.nodup_range).mpr
  intro j
  rw [h.mem_outline, List.mem_range]

theorem subtree_eq_cons (hi : i < forest.size) :
    forest.subtree forest.size i =
      i :: (forest.subLoops i).flatMap (forest.subtree forest.size) :=
  (h.subtree_succ hi (Nat.le_add_left _ _)).symm

theorem mem_below_iff :
    j ∈ (forest.subLoops i).flatMap (forest.subtree forest.size) <-> forest.Below j i := by
  rw [List.mem_flatMap]
  constructor
  · intro hcase
    rcases hcase with ⟨k, hk, hj⟩
    rcases h.mem_subtree.mp hj with ⟨n, _, hn⟩
    refine ⟨n, ?_⟩
    rw [ancestor?, hn]
    exact h.mem_subLoops_iff.mp hk
  · intro hcase
    rcases hcase with ⟨n, hn⟩
    rcases Option.bind_eq_some_iff.mp hn with ⟨k, hk, hparent⟩
    have hj := lt_size_of_ancestor (lt_size_of_parent hparent) hk
    have hle := h.ancestor?_le hk
    exact ⟨k, h.mem_subLoops_iff.mpr hparent, h.mem_subtree.mpr ⟨n, by lia, hk⟩⟩

/-- Of the subtrees of loops with one parent only these loops have that parent. -/
theorem filter_subtrees {parent : Option LoopId}
    (hids : forall k, k ∈ ids -> k < forest.size ∧ forest.parent? k = parent) :
    (ids.flatMap (forest.subtree forest.size)).filter
      (fun j => decide (forest.parent? j = parent)) = ids := by
  have hsubtree : forall k, k ∈ ids -> (forest.subtree forest.size k).filter
      (fun j => decide (forest.parent? j = parent)) = [k] := by
    intro k hk
    rcases hids k hk with ⟨hlt, hparent⟩
    rw [h.subtree_eq_cons hlt, List.filter_cons_of_pos (by simpa using hparent),
      List.filter_eq_nil_iff.mpr]
    intro j hj heq
    rcases h.mem_below_iff.mp hj with ⟨n, hn⟩
    rcases exists_parent_of_ancestor hn with ⟨q, hq, hanc⟩
    -- the parent of `j` is `k` or below it, and the parent of `k` is above it
    have hle := h.ancestor?_le hanc
    have hsame : forest.parent? k = some q :=
      hparent.trans ((of_decide_eq_true heq).symm.trans hq)
    have hgt := h.parent?_lt hsame
    lia
  rw [List.filter_flatMap, List.flatMap_congr hsubtree, List.flatMap_singleton']

/-- The discovery order holds every subtree as it is. -/
theorem exists_subtree (hi : i < forest.size) :
    exists before after, forest.outline = before ++ (forest.subtree forest.size i ++ after) := by
  have hsplit {ids : List LoopId} {i : LoopId} (hmem : i ∈ ids) :
      exists before after, ids.flatMap (forest.subtree forest.size) =
        before ++ (forest.subtree forest.size i ++ after) := by
    rcases List.append_of_mem hmem with ⟨xs, ys, rfl⟩
    refine ⟨xs.flatMap (forest.subtree forest.size), ys.flatMap (forest.subtree forest.size), ?_⟩
    rw [List.flatMap_append, List.flatMap_cons]
  -- from parents to sub-loops, whose numbers are greater
  induction i using Nat.strong_induction_on with
  | h i ih =>
      cases hparent : forest.parent? i with
      | none => exact hsplit (h.mem_topLevel_iff.mpr ⟨hi, hparent⟩)
      | some k =>
          have hlt := h.parent?_lt hparent
          have hk : k < forest.size := lt_trans hlt hi
          rcases ih k hlt hk with ⟨before, after, houter⟩
          rcases hsplit (h.mem_subLoops_iff.mpr hparent) with ⟨front, back, hinner⟩
          rw [h.subtree_eq_cons hk, hinner] at houter
          refine ⟨before ++ k :: front, back ++ after, ?_⟩
          simpa using houter

theorem depthFirst_preorder : forest.DepthFirst forest.preorder where
  perm := h.perm_preorder
  block := by
    intro i hi
    rcases h.exists_subtree hi with ⟨before, after, houtline⟩
    rw [h.subtree_eq_cons hi, List.cons_append] at houtline
    refine ⟨before, _, after, h.preorder_eq_outline.trans houtline, fun j => h.mem_below_iff, ?_⟩
    apply h.filter_subtrees
    intro k hk
    have hparent := h.mem_subLoops_iff.mp hk
    exact ⟨lt_size_of_parent hparent, hparent⟩
  top := by
    rw [h.preorder_eq_outline]
    exact h.filter_subtrees fun i hi => h.mem_topLevel_iff.mp hi

end Nested

end LoopForest
end LoopNest

namespace LoopNest

/-!
## Pictures of loop nests

The picture of a loop nest has a heading and one line for each loop, indented by its depth.  The
lines stand in the discovery order, so the recursion that draws them and the stack that numbers the
candidates go through the loops alike.
-/

namespace CommandLine

variable {beta : Type} {config : TargetConfig} {name : String} {code : Code beta}
  {forest : LoopForest beta}

/-- The line shows the loop: behind two blanks for each level stand its header, its depth, its class
and the number of its blocks. -/
def Shows (config : TargetConfig) (code : Code beta) (forest : LoopForest beta) (i : LoopId)
    (line : String) : Prop :=
  exists l, forest.get? i = some l ∧
    line.toList = List.replicate (2 * l.depth) ' ' ++
      ("loop " ++ code.blockName l.header ++ " depth " ++ toString l.depth ++ ": " ++
        (code.classify config.scope forest i).display ++
        " (" ++ toString l.blocks.length ++ " blocks)").toList

theorem shows_loopLine {i : LoopId} {line : String}
    (h : loopLine config code forest i = some line) : Shows config code forest i line := by
  rcases Option.map_eq_some_iff.mp h with ⟨l, hl, rfl⟩
  refine ⟨l, hl, ?_⟩
  simp [Candidates.classUnder]

theorem shows_filterMap {ids : List LoopId} (h : forall i, i ∈ ids -> i < forest.size) :
    List.Forall₂ (Shows config code forest) ids (ids.filterMap (loopLine config code forest)) := by
  induction ids with
  | nil => exact List.Forall₂.nil
  | cons i ids ih =>
      rw [List.forall_mem_cons] at h
      rcases LoopForest.get?_of_lt_size h.1 with ⟨l, hl⟩
      have hline : loopLine config code forest i = some _ := congrArg (Option.map _) hl
      rw [List.filterMap_cons_some hline]
      exact List.Forall₂.cons (shows_loopLine hline) (ih h.2)

end CommandLine

open CommandLine

/-- The walk with a stack and the recursion both end with the discovery order of the forest, which
goes through it depth first.  The picture of the nest shows the loops in this order, one line for
each, below a heading that tells their number. -/
theorem FlowGraph.walks_agree {n : Nat} (g : FlowGraph n) (config : TargetConfig) (name : String)
    (code : Code (Fin n)) :
    let forest := g.forest
    (forall ids, forest.Pops forest.topLevel ids <-> ids = forest.preorder) ∧
    (forall ids, forest.Descends forest.topLevel ids <-> ids = forest.preorder) ∧
    forest.DepthFirst forest.preorder ∧
    exists lines,
      nestLines config name code forest =
        ("Loops of " ++ name ++ " (" ++ toString forest.size ++ " total)") :: lines ∧
      List.Forall₂ (Shows config code forest) forest.preorder lines ∧
      lines.length = forest.size := by
  intro forest
  have hnested : g.forest.Nested :=
    LoopForest.Nested.map g.separates_blockAt g.laminar_loops.nested_forest
  have hids : forall i, i ∈ forest.preorder -> i < forest.size := by
    intro i hi
    rw [hnested.preorder_eq_outline] at hi
    exact hnested.mem_outline.mp hi
  have hlines : List.Forall₂ (Shows config code forest) forest.preorder _ := shows_filterMap hids
  have hlength := hlines.length_eq.symm.trans hnested.perm_preorder.length_eq
  refine ⟨fun ids => LoopForest.pops_iff_descends.trans hnested.descends_iff,
    fun ids => hnested.descends_iff, hnested.depthFirst_preorder, _, ?_, hlines,
    hlength.trans List.length_range⟩
  rw [nestLines, ← hnested.preorder_eq_outline]

end LoopNest
