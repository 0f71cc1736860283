import LoopNest.Proofs.Flow.Nesting
import LoopNest.Proofs.Forest.Partitioned
import Mathlib.Data.List.Sort

/-!
# Forests of laminar families

The forest built from a laminar family of loops is nested and partitioned.
-/

namespace LoopNest
namespace NaturalLoop

variable {size i j p : Nat} {loops : List NaturalLoop} {k l : NaturalLoop}

theorem get?_forest_eq_some {l' : Loop Nat} :
    (forest size loops).get? i = some l' <->
      exists l, loops[i]? = some l ∧ toLoop size loops i l = l' := by
  rw [get?_forest, Option.map_eq_some_iff]

theorem mem_children_parents {parent : Option LoopId} :
    j ∈ children (parents loops) parent <->
      exists k, (forest size loops).get? j = some k ∧ k.parent = parent := by
  rw [mem_children, getElem?_parents, Option.map_eq_some_iff]
  constructor
  · intro hcase
    rcases hcase with ⟨k, hk, hparent⟩
    exact ⟨_, get?_forest_eq_some.mpr ⟨k, hk, rfl⟩, hparent⟩
  · intro hcase
    rcases hcase with ⟨k', hk', hparent⟩
    rcases get?_forest_eq_some.mp hk' with ⟨k, hk, rfl⟩
    exact ⟨k, hk, hparent⟩

theorem holders_forest (size : Nat) (loops : List NaturalLoop) (p : Nat) :
    (forest size loops).holders p = holders loops p := by
  have hfst : holders loops p =
      (loops.zipIdx.map Prod.fst).countP fun k => decide (p ∈ k.body) := by
    rw [List.zipIdx_map_fst]
    rfl
  rw [hfst, List.countP_map]
  exact List.countP_map

theorem exists_of_mem_children (hj : j ∈ children (parents loops) (some i)) :
    exists k, loops[j]? = some k ∧ parent? loops j k = some i := by
  have hparents := mem_children.mp hj
  rw [getElem?_parents, Option.map_eq_some_iff] at hparents
  exact hparents

theorem owner?_eq_none_iff_covers : owner? loops p = none <-> ¬ (forest size loops).Covers p := by
  rw [Laminar.owner?_eq_none]
  constructor
  · intro hnone hcase
    rcases hcase with ⟨i, l', hl', hp⟩
    rcases get?_forest_eq_some.mp hl' with ⟨l, hl, rfl⟩
    exact hnone i ⟨l, hl, hp⟩
  · intro hnone i hcase
    rcases hcase with ⟨l, hl, hp⟩
    exact hnone ⟨i, _, get?_forest_eq_some.mpr ⟨l, hl, rfl⟩, hp⟩

theorem sublist_of_sorted {xs ys : List Nat} (hxs : xs.Pairwise (· < ·))
    (hys : ys.Pairwise (· < ·)) (hsub : xs ⊆ ys) : xs.Sublist ys :=
  List.sublist_of_subperm_of_pairwise (List.subperm_of_subset (hxs.imp ne_of_lt) hsub) hxs hys

theorem head?_of_sorted {xs : List Nat} (hsorted : xs.Pairwise (· < ·)) (hp : p ∈ xs)
    (hle : forall q, q ∈ xs -> p ≤ q) : xs.head? = some p := by
  cases xs with
  | nil => cases hp
  | cons q xs =>
      rcases List.mem_cons.mp hp with rfl | hp
      · rfl
      · have hlt := List.rel_of_pairwise_cons hsorted hp
        have hle := hle q List.mem_cons_self
        lia

namespace Laminar

variable (h : Laminar size loops)
include h

/-!
## Nesting
-/

theorem not_mem_body (hk : loops[i]? = some k) (hl : loops[j]? = some l) (hij : i < j) :
    k.header ∉ l.body := by
  intro hmem
  have hle := h.le_of_holds_header hk ⟨l, hl, hmem⟩
  lia

theorem inside_iff (hk : loops[i]? = some k) (hl : loops[j]? = some l) :
    (toLoop size loops j l).Inside (toLoop size loops i k) <->
      i < j ∧ Holds loops i l.header := by
  rw [holds_iff hk]
  constructor
  · intro hcase
    rcases hcase with ⟨hsub, hnot⟩
    have hheader : l.header ∈ k.body := hsub (h.header_mem l (List.mem_of_getElem? hl))
    refine ⟨Nat.lt_of_le_of_ne (h.le_of_holds_header hl ⟨k, hk, hheader⟩) ?_, hheader⟩
    intro heq
    subst heq
    rw [hk] at hl
    injection hl with hkl
    rw [hkl] at hnot
    exact hnot (List.Subset.refl _)
  · intro hcase
    rcases hcase with ⟨hij, hheader⟩
    constructor
    · exact h.subset_of_le hk hl (le_of_lt hij) hheader
        (h.header_mem l (List.mem_of_getElem? hl))
    · intro hsub
      exact h.not_mem_body hk hl hij (hsub (h.header_mem k (List.mem_of_getElem? hk)))

theorem disjoint_or_inside (hk : loops[i]? = some k) (hl : loops[j]? = some l) (hij : i < j) :
    k.body.Disjoint l.body ∨ (toLoop size loops j l).Inside (toLoop size loops i k) := by
  rw [h.inside_iff hk hl, holds_iff hk]
  by_cases hshared : exists p, p ∈ k.body ∧ p ∈ l.body
  · rcases hshared with ⟨p, hpk, hpl⟩
    have hsub := h.subset_of_le hk hl (le_of_lt hij) hpk hpl
    exact Or.inr ⟨hij, hsub (h.header_mem l (List.mem_of_getElem? hl))⟩
  · apply Or.inl
    intro p hpk hpl
    exact hshared ⟨p, hpk, hpl⟩

theorem encloses_iff (hl : loops[i]? = some l) :
    (forest size loops).Encloses j (toLoop size loops i l) <-> parent? loops i l = some j := by
  rw [h.parent?_eq_some hl]
  constructor
  · intro hcase
    rcases hcase with ⟨k', hk', hinside, hleast⟩
    rcases get?_forest_eq_some.mp hk' with ⟨k, hk, rfl⟩
    have hheld := (h.inside_iff hk hl).mp hinside
    refine ⟨hheld, fun j' hji hholds => ?_⟩
    by_contra hlt
    rcases hholds with ⟨k', hk', hmem⟩
    have hinside' := (h.inside_iff hk' hl).mpr ⟨hji, k', hk', hmem⟩
    have hlen := hleast j' _ (get?_forest_eq_some.mpr ⟨k', hk', rfl⟩) hinside' (by lia)
    have hlen' := h.length_lt_of_lt hk hk' (Nat.lt_of_not_le hlt) ((holds_iff hk).mp hheld.2) hmem
    exact lt_asymm hlen hlen'
  · intro hcase
    rcases hcase with ⟨⟨hji, k, hk, hmem⟩, hlast⟩
    refine ⟨_, get?_forest_eq_some.mpr ⟨k, hk, rfl⟩,
      (h.inside_iff hk hl).mpr ⟨hji, k, hk, hmem⟩, fun j' m hm hinside hne => ?_⟩
    rcases get?_forest_eq_some.mp hm with ⟨k', hk', rfl⟩
    rcases (h.inside_iff hk' hl).mp hinside with ⟨hji', hholds⟩
    have hlt := Nat.lt_of_le_of_ne (hlast j' hji' hholds) hne
    exact h.length_lt_of_lt hk' hk hlt ((holds_iff hk').mp hholds) hmem

/-- The forest of a laminar family is nested. -/
theorem nested_forest : (forest size loops).Nested where
  nodup := by
    intro i l' hl'
    rcases get?_forest_eq_some.mp hl' with ⟨l, hl, rfl⟩
    exact (h.sorted_body l (List.mem_of_getElem? hl)).imp ne_of_lt
  header_mem := by
    intro i l' hl'
    rcases get?_forest_eq_some.mp hl' with ⟨l, hl, rfl⟩
    exact h.header_mem l (List.mem_of_getElem? hl)
  laminar := by
    intro i j k' l' hij hk' hl'
    rcases get?_forest_eq_some.mp hk' with ⟨k, hk, rfl⟩
    rcases get?_forest_eq_some.mp hl' with ⟨l, hl, rfl⟩
    rcases Nat.lt_or_gt_of_ne hij with hlt | hlt
    · exact (h.disjoint_or_inside hk hl hlt).imp_right Or.inr
    · exact (h.disjoint_or_inside hl hk hlt).imp List.disjoint_symm Or.inl
  length_ne := by
    intro i j k' l' hij hk' hl' p hpk hpl
    rcases get?_forest_eq_some.mp hk' with ⟨k, hk, rfl⟩
    rcases get?_forest_eq_some.mp hl' with ⟨l, hl, rfl⟩
    rcases Nat.lt_or_gt_of_ne hij with hlt | hlt
    · exact (ne_of_lt (h.length_lt_of_lt hk hl hlt hpk hpl)).symm
    · exact ne_of_lt (h.length_lt_of_lt hl hk hlt hpl hpk)
  parent_eq_some := by
    intro i l' hl' j
    rcases get?_forest_eq_some.mp hl' with ⟨l, hl, rfl⟩
    exact (h.encloses_iff hl).symm
  parent_eq_none := by
    intro i l' hl'
    rcases get?_forest_eq_some.mp hl' with ⟨l, hl, rfl⟩
    refine (h.parent?_eq_none hl).trans ?_
    constructor
    · intro hnone j k' hk' hinside
      rcases get?_forest_eq_some.mp hk' with ⟨k, hk, rfl⟩
      rcases (h.inside_iff hk hl).mp hinside with ⟨hji, hholds⟩
      exact hnone j hji hholds
    · intro hnone j hji hholds
      rcases hholds with ⟨k, hk, hmem⟩
      exact hnone j _ (get?_forest_eq_some.mpr ⟨k, hk, rfl⟩)
        ((h.inside_iff hk hl).mpr ⟨hji, k, hk, hmem⟩)
  parent_lt := by
    intro i l' hl' j hparent
    rcases get?_forest_eq_some.mp hl' with ⟨l, hl, rfl⟩
    exact ((h.parent?_eq_some hl).mp hparent).1.1
  depth_top := by
    intro i l' hl' hparent
    rcases get?_forest_eq_some.mp hl' with ⟨l, hl, rfl⟩
    exact (h.depth_eq_holders hl).trans (h.holders_of_top hl hparent)
  depth_sub := by
    intro i j k' l' hl' hparent hk'
    rcases get?_forest_eq_some.mp hl' with ⟨l, hl, rfl⟩
    rcases get?_forest_eq_some.mp hk' with ⟨k, hk, rfl⟩
    have hsub := h.holders_of_sub hl hk hparent
    rw [← h.depth_eq_holders hl, ← h.depth_eq_holders hk] at hsub
    exact hsub
  depth_eq := by
    intro i l' hl'
    rcases get?_forest_eq_some.mp hl' with ⟨l, hl, rfl⟩
    rw [holders_forest]
    exact h.depth_eq_holders hl
  sorted_subLoops := by
    intro i l' hl'
    rcases get?_forest_eq_some.mp hl' with ⟨l, hl, rfl⟩
    exact sorted_children (parents loops) (some i)
  mem_subLoops := by
    intro i l' hl' j
    rcases get?_forest_eq_some.mp hl' with ⟨l, hl, rfl⟩
    exact mem_children_parents
  sorted_topLevel := List.pairwise_reverse.mpr (sorted_children (parents loops) none)
  mem_topLevel := fun j => List.mem_reverse.trans mem_children_parents

/-!
## Owned positions
-/

theorem mem_ownBlocks : p ∈ ownBlocks size loops i <-> owner? loops p = some i := by
  simp only [ownBlocks, List.mem_filter, List.mem_range, decide_eq_true_eq]
  constructor
  · exact And.right
  · intro howner
    rcases (h.owner?_eq_some.mp howner).1 with ⟨k, hk, hp⟩
    exact ⟨h.lt_size k (List.mem_of_getElem? hk) p hp, howner⟩

theorem owner?_header (hl : loops[i]? = some l) : owner? loops l.header = some i :=
  h.owner?_eq_some.mpr ⟨h.holds_header hl, fun _ hj => h.le_of_holds_header hl hj⟩

theorem mem_body_of_parent (hk : loops[j]? = some k) (hparent : parent? loops j k = some i)
    (hp : p ∈ k.body) : Holds loops i p :=
  h.holds_of_holds_header hk hp ((h.parent?_eq_some hk).mp hparent).1.2

/-- Climbing from a loop inside another one reaches one of its sub-loops. -/
theorem exists_subLoop (hl : loops[i]? = some l) (hpl : p ∈ l.body) (hij : i < j)
    (hk : loops[j]? = some k) (hpk : p ∈ k.body) :
    exists j' k', loops[j']? = some k' ∧ parent? loops j' k' = some i ∧ p ∈ k'.body := by
  -- the parent of the inner loop holds `p` too, and its number is between `i` and `j`
  induction j using Nat.strong_induction_on generalizing k with
  | h j ih =>
      have hheld := h.holds_header_of_le hk hpk ⟨l, hl, hpl⟩ (le_of_lt hij)
      cases hparent : parent? loops j k with
      | none => exact absurd hheld ((h.parent?_eq_none hk).mp hparent i hij)
      | some i' =>
          rcases (h.parent?_eq_some hk).mp hparent with ⟨⟨hij', _⟩, hlast⟩
          by_cases heq : i' = i
          · subst heq
            exact ⟨j, k, hk, hparent, hpk⟩
          · have hlt := Nat.lt_of_le_of_ne (hlast i hij hheld) fun hii => heq hii.symm
            rcases h.mem_body_of_parent hk hparent hpk with ⟨k', hk', hpk'⟩
            exact ih i' hij' hlt hk' hpk'

/-- A loop is divided into what it owns and its sub-loops. -/
theorem mem_body_iff (hl : loops[i]? = some l) :
    p ∈ l.body <-> owner? loops p = some i ∨
      exists j k, loops[j]? = some k ∧ parent? loops j k = some i ∧ p ∈ k.body := by
  constructor
  · intro hp
    cases howner : owner? loops p with
    | none => exact absurd ⟨l, hl, hp⟩ (owner?_eq_none.mp howner i)
    | some j =>
        rcases h.owner?_eq_some.mp howner with ⟨⟨k, hk, hpk⟩, hlast⟩
        rcases Nat.eq_or_lt_of_le (hlast i ⟨l, hl, hp⟩) with heq | hlt
        · exact Or.inl (congrArg some heq.symm)
        · exact Or.inr (h.exists_subLoop hl hp hlt hk hpk)
  · intro hcase
    rw [← holds_iff hl]
    rcases hcase with howner | ⟨j, k, hk, hparent, hp⟩
    · exact (h.owner?_eq_some.mp howner).1
    · exact h.mem_body_of_parent hk hparent hp

theorem siblings_disjoint {j' : Nat} {k' : NaturalLoop} (hjj' : j < j') (hk : loops[j]? = some k)
    (hk' : loops[j']? = some k') (hparent : parent? loops j k = some i)
    (hparent' : parent? loops j' k' = some i) : k.body.Disjoint k'.body := by
  intro p hp hp'
  have hheld := h.holds_header_of_le hk' hp' ⟨k, hk, hp⟩ (le_of_lt hjj')
  have hle := ((h.parent?_eq_some hk').mp hparent').2 j hjj' hheld
  have hlt := ((h.parent?_eq_some hk).mp hparent).1.1
  lia

theorem owned_sublist (hl : loops[i]? = some l) :
    (ownBlocks size loops i).Sublist l.body := by
  apply sublist_of_sorted (List.pairwise_lt_range.filter _)
    (h.sorted_body l (List.mem_of_getElem? hl))
  intro p hp
  exact (h.mem_body_iff hl).mpr (Or.inl (h.mem_ownBlocks.mp hp))

theorem owned_head (hl : loops[i]? = some l) :
    (ownBlocks size loops i).head? = some l.header := by
  apply head?_of_sorted (List.pairwise_lt_range.filter _)
  · exact h.mem_ownBlocks.mpr (h.owner?_header hl)
  · intro p hp
    exact h.header_le l (List.mem_of_getElem? hl) p ((h.owned_sublist hl).subset hp)

theorem mem_blocks_forest (hl : loops[i]? = some l) :
    p ∈ l.body <-> p ∈ ownBlocks size loops i ∨
      exists j k, j ∈ children (parents loops) (some i) ∧
        (forest size loops).get? j = some k ∧ p ∈ k.blocks := by
  refine (h.mem_body_iff hl).trans (or_congr h.mem_ownBlocks.symm ?_)
  constructor
  · intro hcase
    rcases hcase with ⟨j, k, hk, hparent, hp⟩
    refine ⟨j, _, mem_children.mpr ?_, get?_forest_eq_some.mpr ⟨k, hk, rfl⟩, hp⟩
    rw [getElem?_parents, hk, Option.map_some, hparent]
  · intro hcase
    rcases hcase with ⟨j, k', hj, hk', hp⟩
    rcases get?_forest_eq_some.mp hk' with ⟨k, hk, rfl⟩
    rcases exists_of_mem_children hj with ⟨m, hm, hparent⟩
    rw [hk] at hm
    injection hm with hkm
    rw [← hkm] at hparent
    exact ⟨j, k, hk, hparent, hp⟩

theorem children_disjoint {j' : Nat} {k k' : Loop Nat} (hne : j ≠ j')
    (hj : j ∈ children (parents loops) (some i)) (hj' : j' ∈ children (parents loops) (some i))
    (hk : (forest size loops).get? j = some k) (hk' : (forest size loops).get? j' = some k') :
    k.blocks.Disjoint k'.blocks := by
  rcases exists_of_mem_children hj with ⟨m, hm, hparent⟩
  rcases exists_of_mem_children hj' with ⟨m', hm', hparent'⟩
  rw [get?_forest, hm] at hk
  rw [get?_forest, hm'] at hk'
  cases hk
  cases hk'
  rcases Nat.lt_or_gt_of_ne hne with hlt | hlt
  · exact h.siblings_disjoint hlt hm hm' hparent hparent'
  · exact List.disjoint_symm (h.siblings_disjoint hlt hm' hm hparent' hparent)

theorem depthOf_forest : (forest size loops).depthOf p = (forest size loops).holders p := by
  cases howner : owner? loops p with
  | none =>
      have hnone := (loopFor?_forest h p).trans howner
      rw [LoopForest.depthOf_of_loopFor_none hnone,
        LoopForest.holders_eq_zero (owner?_eq_none_iff_covers.mp howner)]
  | some i =>
      rcases (h.owner?_eq_some.mp howner).1 with ⟨l, hl, _⟩
      rw [LoopForest.depthOf_of_loopFor ((loopFor?_forest h p).trans howner)
        (get?_forest_eq_some.mpr ⟨l, hl, rfl⟩), holders_forest, h.holders_of_owner howner hl]
      exact h.depth_eq_holders hl

theorem isHeader_forest :
    (forest size loops).isHeader p = true <->
      exists i l, (forest size loops).get? i = some l ∧ l.header = p := by
  constructor
  · intro hheader
    cases howner : owner? loops p with
    | none =>
        rw [LoopForest.isHeader_of_loopFor_none ((loopFor?_forest h p).trans howner)] at hheader
        cases hheader
    | some i =>
        rcases (h.owner?_eq_some.mp howner).1 with ⟨l, hl, _⟩
        have hl' : (forest size loops).get? i = some (toLoop size loops i l) :=
          get?_forest_eq_some.mpr ⟨l, hl, rfl⟩
        rw [LoopForest.isHeader_of_loopFor ((loopFor?_forest h p).trans howner) hl'] at hheader
        exact ⟨i, _, hl', of_decide_eq_true hheader⟩
  · intro hcase
    rcases hcase with ⟨i, l', hl', rfl⟩
    rcases get?_forest_eq_some.mp hl' with ⟨l, hl, rfl⟩
    have howner := (loopFor?_forest h l.header).trans (h.owner?_header hl)
    change (forest size loops).isHeader l.header = true
    rw [LoopForest.isHeader_of_loopFor howner hl']
    exact decide_eq_true rfl

/-- The forest of a laminar family is partitioned. -/
theorem partitioned_forest : (forest size loops).Partitioned where
  mem_blocks := by
    intro i l' hl' p
    rcases get?_forest_eq_some.mp hl' with ⟨l, hl, rfl⟩
    exact h.mem_blocks_forest hl
  own_disjoint := by
    intro i l' hl' j k' hj hk' p hown hp
    rcases get?_forest_eq_some.mp hl' with ⟨l, hl, rfl⟩
    rcases get?_forest_eq_some.mp hk' with ⟨k, hk, rfl⟩
    rcases exists_of_mem_children hj with ⟨m, hm, hparent⟩
    have hlast := (h.owner?_eq_some.mp (h.mem_ownBlocks.mp hown)).2
    have hle := hlast j ⟨k, hk, hp⟩
    have hlt := ((h.parent?_eq_some hm).mp hparent).1.1
    lia
  subLoops_disjoint := by
    intro i l' hl' j j' k k' hne hj hj' hk hk'
    rcases get?_forest_eq_some.mp hl' with ⟨l, hl, rfl⟩
    exact h.children_disjoint hne hj hj' hk hk'
  own_sublist := by
    intro i l' hl'
    rcases get?_forest_eq_some.mp hl' with ⟨l, hl, rfl⟩
    exact h.owned_sublist hl
  own_head := by
    intro i l' hl'
    rcases get?_forest_eq_some.mp hl' with ⟨l, hl, rfl⟩
    exact h.owned_head hl
  loopFor_eq_some := by
    intro p i
    rw [loopFor?_forest h]
    constructor
    · intro howner
      rcases (h.owner?_eq_some.mp howner).1 with ⟨l, hl, _⟩
      exact ⟨_, get?_forest_eq_some.mpr ⟨l, hl, rfl⟩, h.mem_ownBlocks.mpr howner⟩
    · intro hcase
      rcases hcase with ⟨l', hl', hown⟩
      rcases get?_forest_eq_some.mp hl' with ⟨l, hl, rfl⟩
      exact h.mem_ownBlocks.mp hown
  loopFor_eq_none := by
    intro p
    rw [loopFor?_forest h]
    exact owner?_eq_none_iff_covers
  depthOf_eq := fun _ => h.depthOf_forest
  isHeader_iff := fun _ => h.isHeader_forest

end Laminar
end NaturalLoop
end LoopNest
