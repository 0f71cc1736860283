import LoopNest.Proofs.Forest.Nested
import Mathlib.Algebra.Order.Ring.Nat
import Mathlib.Data.List.Perm.Basic

/-!
# Discovery order

The discovery order walks a forest with a list of loops still to visit.  In a nested forest
it lists every loop once: it is the outline of the forest, in which every loop is followed by
the loops below it.  The loops of small depth in it are the outline cut off at this depth.
-/

namespace LoopNest
namespace LoopForest

variable {beta : Type}

def parent? (forest : LoopForest beta) (id : LoopId) : Option LoopId :=
  (forest.get? id).bind Loop.parent

/-- The loop that lies some levels above a loop. -/
def ancestor? (forest : LoopForest beta) : (levels : Nat) -> LoopId -> Option LoopId
  | 0, id => some id
  | levels + 1, id => (ancestor? forest levels id).bind forest.parent?

def levelOf (forest : LoopForest beta) (id : LoopId) : Nat :=
  match forest.get? id with
  | none => 0
  | some l => l.depth

variable {forest : LoopForest beta} {i j k : LoopId} {l : Loop beta} {levels m : Nat}

theorem lt_size_of_get? (h : forest.get? i = some l) : i < forest.size :=
  (List.getElem?_eq_some_iff.mp h).1

theorem get?_of_lt_size (h : i < forest.size) : exists l, forest.get? i = some l :=
  ⟨_, List.getElem?_eq_getElem h⟩

theorem levelOf_eq (h : forest.get? i = some l) : forest.levelOf i = l.depth := by
  rw [levelOf, h]

theorem parent?_eq_some :
    forest.parent? j = some i <-> exists l, forest.get? j = some l ∧ l.parent = some i := by
  unfold parent?
  rw [Option.bind_eq_some_iff]

theorem lt_size_of_parent (h : forest.parent? j = some i) : j < forest.size := by
  rcases parent?_eq_some.mp h with ⟨l, hl, _⟩
  exact lt_size_of_get? hl

theorem subtree_one (forest : LoopForest beta) (i : LoopId) : forest.subtree 1 i = [i] := by
  simp [subtree]

theorem subtree_two (forest : LoopForest beta) (i : LoopId) :
    forest.subtree 2 i = i :: forest.subLoops i := by
  rw [subtree, funext (subtree_one forest), List.flatMap_singleton']

namespace Nested

variable [DecidableEq beta] (h : forest.Nested)
include h

/-!
## Parents and levels
-/

theorem mem_subLoops_iff : j ∈ forest.subLoops i <-> forest.parent? j = some i := by
  rw [parent?_eq_some]
  unfold subLoops
  cases hi : forest.get? i with
  | some l => exact h.mem_subLoops i l hi j
  | none =>
      constructor
      · intro hj
        cases hj
      · intro hcase
        rcases hcase with ⟨l, hl, hparent⟩
        rcases (h.parent_eq_some j l hl i).mp hparent with ⟨k, hk, _⟩
        rw [hi] at hk
        cases hk

theorem mem_topLevel_iff :
    j ∈ forest.topLevel <-> j < forest.size ∧ forest.parent? j = none := by
  rw [h.mem_topLevel j]
  constructor
  · intro hcase
    rcases hcase with ⟨l, hl, hparent⟩
    refine ⟨lt_size_of_get? hl, ?_⟩
    rw [parent?, hl, Option.bind_some, hparent]
  · intro hcase
    rcases hcase with ⟨hj, hparent⟩
    rcases get?_of_lt_size hj with ⟨l, hl⟩
    rw [parent?, hl, Option.bind_some] at hparent
    exact ⟨l, hl, hparent⟩

theorem parent?_lt (hj : forest.parent? j = some i) : i < j := by
  rcases parent?_eq_some.mp hj with ⟨l, hl, hparent⟩
  exact h.parent_lt j l hl i hparent

theorem levelOf_top (hj : j ∈ forest.topLevel) : forest.levelOf j = 1 := by
  rcases (h.mem_topLevel j).mp hj with ⟨l, hl, hparent⟩
  rw [levelOf_eq hl, h.depth_top j l hl hparent]

theorem levelOf_sub (hj : forest.parent? j = some i) :
    forest.levelOf j = forest.levelOf i + 1 := by
  rcases parent?_eq_some.mp hj with ⟨l, hl, hparent⟩
  rcases get?_of_lt_size (lt_trans (h.parent?_lt hj) (lt_size_of_get? hl)) with ⟨k, hk⟩
  rw [levelOf_eq hl, levelOf_eq hk, h.depth_sub j i k l hl hparent hk]

theorem levelOf_pos (hj : j < forest.size) : 0 < forest.levelOf j := by
  cases hparent : forest.parent? j with
  | none =>
      rw [h.levelOf_top (h.mem_topLevel_iff.mpr ⟨hj, hparent⟩)]
      exact Nat.one_pos
  | some i =>
      rw [h.levelOf_sub hparent]
      exact Nat.succ_pos _

section

variable {inner outer : Loop beta} (hinner : forest.get? i = some inner)
  (houter : forest.get? j = some outer) (hinside : inner.Inside outer)
include hinner houter hinside

theorem exists_parent : exists p, forest.parent? i = some p := by
  cases hparent : inner.parent with
  | none => exact absurd hinside ((h.parent_eq_none i inner hinner).mp hparent j outer houter)
  | some p => exact ⟨p, parent?_eq_some.mpr ⟨inner, hinner, hparent⟩⟩

/-- No loop but its parent is around a loop on the second level. -/
theorem parent?_of_inside (hlevel : forest.levelOf i ≤ 2) : forest.parent? i = some j := by
  rcases h.exists_parent hinner houter hinside with ⟨p, hp⟩
  rcases parent?_eq_some.mp hp with ⟨l, hl, hparent⟩
  cases hinner.symm.trans hl
  rcases (h.parent_eq_some i inner hl p).mp hparent with ⟨middle, hmiddle, hsub, hleast⟩
  by_cases hpj : p = j
  · rw [hp, hpj]
  exfalso
  -- another loop around `inner` is larger than the parent, and so around the parent
  have hshort := hleast j outer houter hinside (Ne.symm hpj)
  have hheader := h.header_mem i inner hinner
  rcases h.laminar p j middle outer hpj hmiddle houter with hdisjoint | hbelow | habove
  · exact hdisjoint (hsub.1 hheader) (hinside.1 hheader)
  · rcases h.exists_parent hmiddle houter hbelow with ⟨q, hq⟩
    have hlevelp := h.levelOf_sub hp
    have hlevelq := h.levelOf_sub hq
    have hpos := h.levelOf_pos (lt_trans (h.parent?_lt hq) (lt_size_of_parent hq))
    lia
  · have hle := (List.subperm_of_subset (h.nodup j outer houter) habove.1).length_le
    lia

end

/-!
## Ancestors
-/

theorem ancestor?_le (hj : forest.ancestor? levels j = some i) : i + levels ≤ j := by
  induction levels generalizing i with
  | zero =>
      cases hj
      exact le_refl _
  | succ levels ih =>
      rcases Option.bind_eq_some_iff.mp hj with ⟨k, hk, hparent⟩
      have hle := ih hk
      have hlt := h.parent?_lt hparent
      lia

theorem levelOf_ancestor (hj : forest.ancestor? levels j = some i) :
    forest.levelOf j = forest.levelOf i + levels := by
  induction levels generalizing i with
  | zero =>
      cases hj
      rfl
  | succ levels ih =>
      rcases Option.bind_eq_some_iff.mp hj with ⟨k, hk, hparent⟩
      rw [ih hk, h.levelOf_sub hparent]
      lia

omit [DecidableEq beta] h in
theorem ancestor?_of_parent (hj : forest.parent? j = some k) (levels : Nat) :
    forest.ancestor? (levels + 1) j = forest.ancestor? levels k := by
  induction levels with
  | zero => exact hj
  | succ levels ih =>
      rw [ancestor?, ih]
      rfl

omit [DecidableEq beta] h in
theorem lt_size_of_ancestor (hi : i < forest.size) (hj : forest.ancestor? levels j = some i) :
    j < forest.size := by
  induction levels generalizing i with
  | zero =>
      cases hj
      exact hi
  | succ levels ih =>
      rcases Option.bind_eq_some_iff.mp hj with ⟨k, hk, hparent⟩
      exact ih (lt_size_of_parent hparent) hk

/-!
## Subtrees
-/

theorem mem_subtree :
    j ∈ forest.subtree levels i <->
      exists n, n < levels ∧ forest.ancestor? n j = some i := by
  induction levels generalizing i with
  | zero => simp [subtree]
  | succ levels ih =>
      rw [subtree, List.mem_cons, List.mem_flatMap]
      constructor
      · intro hcase
        rcases hcase with rfl | ⟨k, hk, hj⟩
        · exact ⟨0, Nat.zero_lt_succ levels, rfl⟩
        · rcases ih.mp hj with ⟨n, hn, hanc⟩
          refine ⟨n + 1, Nat.succ_lt_succ hn, ?_⟩
          rw [ancestor?, hanc]
          exact h.mem_subLoops_iff.mp hk
      · intro hcase
        rcases hcase with ⟨n, hn, hanc⟩
        cases n with
        | zero =>
            cases hanc
            exact Or.inl rfl
        | succ n =>
            rcases Option.bind_eq_some_iff.mp hanc with ⟨k, hk, hparent⟩
            exact Or.inr ⟨k, h.mem_subLoops_iff.mpr hparent, ih.mpr ⟨n, by lia, hk⟩⟩

/-- Loops of one depth have no loop below them in common. -/
theorem subtree_disjoint (hij : i ≠ j) (hlevel : forest.levelOf i = forest.levelOf j) :
    (forest.subtree levels i).Disjoint (forest.subtree levels j) := by
  intro k hki hkj
  rcases h.mem_subtree.mp hki with ⟨n, _, hn⟩
  rcases h.mem_subtree.mp hkj with ⟨m, _, hm⟩
  have hleveln := h.levelOf_ancestor hn
  have hlevelm := h.levelOf_ancestor hm
  have hnm : n = m := by lia
  subst hnm
  rw [hn] at hm
  injection hm with heq
  exact hij heq

/-- The subtrees of different loops of one depth repeat nothing. -/
theorem nodup_flatMap_subtree {ids : List LoopId} (depth : Nat) (hids : ids.Nodup)
    (hlevel : forall i, i ∈ ids -> forest.levelOf i = depth)
    (hnodup : forall i, i ∈ ids -> (forest.subtree levels i).Nodup) :
    (ids.flatMap (forest.subtree levels)).Nodup := by
  rw [List.nodup_flatMap]
  refine ⟨hnodup, ?_⟩
  apply hids.pairwise_of_forall_ne
  intro i hi j hj hij
  exact h.subtree_disjoint hij ((hlevel i hi).trans (hlevel j hj).symm)

theorem nodup_subtree (levels : Nat) (i : LoopId) : (forest.subtree levels i).Nodup := by
  induction levels generalizing i with
  | zero => exact List.nodup_nil
  | succ levels ih =>
      rw [subtree, List.nodup_cons]
      constructor
      · intro hmem
        rcases List.mem_flatMap.mp hmem with ⟨k, hk, hi⟩
        rcases h.mem_subtree.mp hi with ⟨n, _, hn⟩
        have hlt := h.parent?_lt (h.mem_subLoops_iff.mp hk)
        have hle := h.ancestor?_le hn
        lia
      · have hsubs : (forest.subLoops i).Nodup := by
          unfold subLoops
          cases hi : forest.get? i with
          | none => exact List.nodup_nil
          | some l => exact (h.sorted_subLoops i l hi).imp ne_of_lt
        apply h.nodup_flatMap_subtree (forest.levelOf i + 1) hsubs
        · intro k hk
          exact h.levelOf_sub (h.mem_subLoops_iff.mp hk)
        · intro k _
          exact ih k

/-- With levels for all later loops a subtree is complete: one more level adds nothing. -/
theorem subtree_succ (hi : i < forest.size) (hlevels : forest.size ≤ i + levels) :
    forest.subtree (levels + 1) i = forest.subtree levels i := by
  induction levels generalizing i with
  | zero => lia
  | succ levels ih =>
      rw [subtree, subtree]
      apply congrArg (List.cons i)
      apply List.flatMap_congr
      intro k hk
      have hparent := h.mem_subLoops_iff.mp hk
      have hlt := h.parent?_lt hparent
      exact ih (lt_size_of_parent hparent) (by lia)

/-- The loops of a complete subtree that are less than `m` levels down. -/
theorem filter_subtree (hi : i < forest.size) (hlevels : forest.size ≤ i + levels) (m : Nat) :
    (forest.subtree levels i).filter
        (fun j => decide (forest.levelOf j < forest.levelOf i + m)) =
      forest.subtree m i := by
  induction levels generalizing i m with
  | zero => lia
  | succ levels ih =>
      cases m with
      | zero =>
          apply List.filter_eq_nil_iff.mpr
          intro j hj
          rcases h.mem_subtree.mp hj with ⟨n, _, hn⟩
          rw [h.levelOf_ancestor hn, decide_eq_true_eq]
          lia
      | succ m =>
          rw [subtree, subtree, List.filter_cons_of_pos (by simp), List.filter_flatMap]
          apply congrArg (List.cons i)
          apply List.flatMap_congr
          intro k hk
          have hparent := h.mem_subLoops_iff.mp hk
          have hlt := h.parent?_lt hparent
          have hrest := ih (lt_size_of_parent hparent) (by lia) m
          rw [h.levelOf_sub hparent, Nat.add_assoc, Nat.add_comm 1 m] at hrest
          exact hrest

/-!
## The walk
-/

/-- A walk lists what the loops still to visit lead to, as far as it goes. -/
theorem visit_eq_take (count : Nat) (ids : List LoopId)
    (hids : forall i, i ∈ ids -> i < forest.size) :
    forest.visit count ids = (ids.flatMap (forest.subtree forest.size)).take count := by
  induction count generalizing ids with
  | zero => rw [visit, List.take_zero]
  | succ count ih =>
      cases ids with
      | nil => rfl
      | cons i ids =>
          have hi := hids i List.mem_cons_self
          have hsubs : forall j, j ∈ forest.subLoops i ++ ids -> j < forest.size := by
            intro j hj
            rcases List.mem_append.mp hj with hj | hj
            · exact lt_size_of_parent (h.mem_subLoops_iff.mp hj)
            · exact hids j (List.mem_cons_of_mem _ hj)
          have hsubtree : forest.subtree forest.size i =
              i :: (forest.subLoops i).flatMap (forest.subtree forest.size) :=
            (h.subtree_succ hi (Nat.le_add_left _ _)).symm
          rw [visit, ih _ hsubs, List.flatMap_cons, hsubtree, List.flatMap_append,
            List.cons_append, List.take_succ_cons]

theorem nodup_outline : forest.outline.Nodup := by
  apply h.nodup_flatMap_subtree 1 (h.sorted_topLevel.imp ne_of_gt)
  · intro i hi
    exact h.levelOf_top hi
  · intro i _
    exact h.nodup_subtree _ i

theorem mem_outline : j ∈ forest.outline <-> j < forest.size := by
  constructor
  · intro hj
    rcases List.mem_flatMap.mp hj with ⟨i, hi, hj⟩
    rcases h.mem_subtree.mp hj with ⟨n, _, hn⟩
    exact lt_size_of_ancestor (h.mem_topLevel_iff.mp hi).1 hn
  · intro hj
    induction j using Nat.strong_induction_on with
    | h j ih =>
        cases hparent : forest.parent? j with
        | none =>
            apply List.mem_flatMap.mpr
            exact ⟨j, h.mem_topLevel_iff.mpr ⟨hj, hparent⟩,
              h.mem_subtree.mpr ⟨0, by lia, rfl⟩⟩
        | some k =>
            have hk := h.parent?_lt hparent
            rcases List.mem_flatMap.mp (ih k hk (by lia)) with ⟨i, hi, hki⟩
            rcases h.mem_subtree.mp hki with ⟨n, _, hn⟩
            have hj' := (ancestor?_of_parent hparent n).trans hn
            have hle := h.ancestor?_le hj'
            exact List.mem_flatMap.mpr ⟨i, hi, h.mem_subtree.mpr ⟨n + 1, by lia, hj'⟩⟩

/-- The discovery order is the outline of the forest. -/
theorem preorder_eq_outline : forest.preorder = forest.outline := by
  have htop : forall i, i ∈ forest.topLevel -> i < forest.size :=
    fun i hi => (h.mem_topLevel_iff.mp hi).1
  have hperm : forest.outline.Perm (List.range forest.size) := by
    apply (List.perm_ext_iff_of_nodup h.nodup_outline List.nodup_range).mpr
    intro j
    rw [h.mem_outline, List.mem_range]
  rw [preorder, h.visit_eq_take _ _ htop]
  exact List.take_of_length_le (hperm.length_eq.trans List.length_range).le

end Nested
end LoopForest
end LoopNest
