import LoopNest.Proofs.Flow.Moves
import LoopNest.Proofs.Flow.Search
import Mathlib.Algebra.Group.Action.Defs
import Mathlib.Algebra.Order.BigOperators.Group.Finset

/-!
# Settling

Sweeps keep dominators sound, and they settle.
-/

namespace LoopNest
namespace Skeleton

/-!
## Sweeps

A sweep changes the tree while it reads it.  What carries the proof is that no strict
dominator of a position is lost, that parents only move towards the entry, and that the
parent of a position which is still to be placed has not been left behind by the earlier
predecessors of this position.
-/

/-- What holds of the tree when a sweep is about to place position `k`. -/
structure Sweeping (s : Skeleton) (t : DomTree) (k : Nat) : Prop where
  size_eq : t.size = s.size
  grown : t.Grown
  placed : forall p, p < k -> p < s.size -> t.Placed p
  earlier_placed : forall p q, t.Placed p -> q < p -> t.Placed q
  /-- A strict dominator of a position dominates its parent. -/
  faithful : forall p q c, t.parent? p = some q -> s.Dominates c p -> c ≠ p -> s.Dominates c q
  /-- No common ancestor of the predecessors stands behind the parent. -/
  lowest : forall p q c, p ≠ 0 -> t.parent? p = some q ->
    (forall x, x ∈ s.predsOf p -> t.Placed x -> t.above c x = true) -> c ≤ q
  /-- An earlier predecessor is below the parent, unless the sweep has moved the parent
  since. -/
  below : forall p q x, p ≠ 0 -> t.parent? p = some q -> x ∈ s.predsOf p -> x < p ->
    k ≤ q ∨ p < k -> t.above q x = true
  /-- Even then the early ancestors of the predecessor are ancestors of the parent. -/
  shared : forall p q x c, p ≠ 0 -> t.parent? p = some q -> x ∈ s.predsOf p -> x < p ->
    t.above c x = true -> c ≤ q -> t.above c q = true

namespace Sweeping

variable {s : Skeleton} {t u : DomTree} {a c d k m p q : Nat}

/-!
### Dominators are ancestors
-/

theorem above_of_dominates (h : s.Sweeping t k) (hp : t.Placed p) (hc : s.Dominates c p) :
    t.above c p = true := by
  induction p using Nat.strong_induction_on with
  | h p ih =>
      by_cases hcp : c = p
      · subst hcp
        exact t.above_self c
      · rcases hp with ⟨q, hq⟩
        have hp0 : p ≠ 0 := by
          intro hp0
          subst hp0
          exact hcp hc.eq_zero
        have hlt := h.grown.lower p q hq hp0
        have hcq := ih q hlt (h.grown.placed p q hq) (h.faithful p q c hq hc hcp)
        exact DomTree.above_trans hcq (h.grown.above_parent hq)

/-- A dominator dominates all ancestors that stand behind it. -/
theorem dominates_of_above (h : s.Sweeping t k) (hc : s.Dominates c a)
    (hd : t.above d a = true) (hle : c ≤ d) : s.Dominates c d := by
  induction a using Nat.strong_induction_on with
  | h a ih =>
      by_cases hda : d = a
      · subst hda
        exact hc
      · rcases DomTree.parent_of_above hd hda with ⟨q, hq, hlt, hdq⟩
        have hle' := DomTree.le_of_above hdq
        exact ih q hlt (h.faithful a q c hq hc (by lia)) hdq

/-!
### One step of a sweep
-/

theorem place_of_point (h : s.meetingPoint t k = some m) :
    s.place t k = t.setIfInBounds k (some m) := by
  rw [place, h]

theorem place_eq (hs : s.Rooted) (h : s.Sweeping t k) (hk0 : k ≠ 0) (hk : k < s.size) :
    exists m, s.meetingPoint t k = some m ∧ t.Meets (s.predsOf k) m ∧
      t.Moved (s.place t k) k m := by
  rcases hs.earlier k hk0 hk with ⟨x, hx, hxk⟩
  have hplaced := h.placed x hxk (by lia)
  rcases DomTree.foldl_join_none h.grown hx hplaced with ⟨m, hfold, hm⟩
  have hpoint : s.meetingPoint t k = some m := hfold
  have hmx := (hm.common m).mp (t.above_self m) x hx hplaced
  refine ⟨m, hpoint, hm, ?_, ?_, hm.placed, ?_⟩
  · intro p
    rw [place_of_point hpoint]
    exact DomTree.parent?_setIfInBounds (by rw [h.size_eq]; exact hk) p
  · have hle := DomTree.le_of_above hmx
    lia
  · intro z hz
    have hmz : m ≤ z := by
      apply h.lowest k z m hk0 hz
      exact (hm.common m).mp (t.above_self m)
    exact h.shared k z x m hk0 hz hx hxk hmx hmz

section

variable (hs : s.Rooted) (h : s.Sweeping t k) (hk0 : k ≠ 0) (hk : k < s.size)
  (hmeets : t.Meets (s.predsOf k) m) (hmoved : t.Moved u k m)
include h hmeets hmoved

include hs hk0 hk in
theorem faithful_moved (hq : u.parent? p = some q) (hc : s.Dominates c p) (hcp : c ≠ p) :
    s.Dominates c q := by
  rcases hmoved.parent_cases hq with ⟨rfl, rfl⟩ | ⟨_, hq⟩
  · have hcq : t.above c q = true := by
      apply (hmeets.common c).mpr
      intro y hy hyplaced
      exact h.above_of_dominates hyplaced (hc.pred hcp hy)
    rcases hs.earlier p hk0 hk with ⟨x, hx, hxp⟩
    have hqx := (hmeets.common q).mp (t.above_self q) x hx (h.placed x hxp (by lia))
    exact h.dominates_of_above (hc.pred hcp hx) hqx (DomTree.le_of_above hcq)
  · exact h.faithful p q c hq hc hcp

theorem lowest_moved (hp0 : p ≠ 0) (hq : u.parent? p = some q)
    (hall : forall x, x ∈ s.predsOf p -> u.Placed x -> u.above c x = true) : c ≤ q := by
  have hall' : forall x, x ∈ s.predsOf p -> t.Placed x -> t.above c x = true := by
    intro x hx hxplaced
    have hcx := hall x hx (hmoved.placed_of_placed hxplaced)
    exact hmoved.above_of_above h.grown hxplaced hcx
  rcases hmoved.parent_cases hq with ⟨rfl, rfl⟩ | ⟨_, hq⟩
  · exact DomTree.le_of_above ((hmeets.common c).mpr hall')
  · exact h.lowest p q c hp0 hq hall'

include hk in
theorem below_moved (hp0 : p ≠ 0) (hq : u.parent? p = some q) (hx : a ∈ s.predsOf p)
    (hxp : a < p) (hcase : k + 1 ≤ q ∨ p < k + 1) : u.above q a = true := by
  rcases hmoved.parent_cases hq with ⟨rfl, rfl⟩ | ⟨hpk, hq⟩
  · rw [hmoved.above_eq (Or.inr hxp)]
    exact (hmeets.common q).mp (t.above_self q) a hx (h.placed a hxp (by lia))
  · rw [hmoved.above_eq (by lia)]
    exact h.below p q a hp0 hq hx hxp (by lia)

include hk in
theorem shared_moved (hp0 : p ≠ 0) (hq : u.parent? p = some q) (hx : a ∈ s.predsOf p)
    (hxp : a < p) (hcx : u.above c a = true) (hcq : c ≤ q) : u.above c q = true := by
  by_cases hbelow : k ≤ q ∨ p ≤ k
  · -- the predecessor is still below the parent
    have hqx : u.above q a = true := by
      by_cases hqk : q = k
      · subst hqk
        rcases hmoved.parent_cases hq with ⟨_, hqm⟩ | ⟨_, hq⟩
        · exact absurd hqm (ne_of_gt hmoved.lt)
        · rw [hmoved.above_eq (Or.inl (le_refl q))]
          exact h.below p q a hp0 hq hx hxp (Or.inl (le_refl q))
      · exact h.below_moved hk hmeets hmoved hp0 hq hx hxp (by lia)
    exact DomTree.above_of_le hcx hqx hcq
  · -- neither the parent nor its ancestors have moved
    rcases hmoved.parent_cases hq with ⟨hpk, _⟩ | ⟨_, hq⟩
    · lia
    · have hxplaced := h.earlier_placed p a ⟨q, hq⟩ hxp
      have hcx' := hmoved.above_of_above h.grown hxplaced hcx
      rw [hmoved.above_eq (Or.inr (by lia))]
      exact h.shared p q a c hp0 hq hx hxp hcx' hcq

end

theorem place (hs : s.Rooted) (h : s.Sweeping t k) (hk0 : k ≠ 0) (hk : k < s.size) :
    s.Sweeping (s.place t k) (k + 1) := by
  rcases h.place_eq hs hk0 hk with ⟨m, hpoint, hmeets, hmoved⟩
  exact {
    size_eq := by
      rw [place_of_point hpoint, Array.size_setIfInBounds]
      exact h.size_eq
    grown := hmoved.grown h.grown
    placed := by
      intro p hp hps
      apply hmoved.placed_iff.mpr
      by_cases hpk : p = k
      · exact Or.inl hpk
      · exact Or.inr (h.placed p (by lia) hps)
    earlier_placed := by
      intro p q hp hqp
      apply hmoved.placed_of_placed
      rcases hmoved.placed_iff.mp hp with rfl | hp
      · exact h.placed q hqp (by lia)
      · exact h.earlier_placed p q hp hqp
    faithful := by
      intro p q c
      exact h.faithful_moved hs hk0 hk hmeets hmoved
    lowest := by
      intro p q c
      exact h.lowest_moved hmeets hmoved
    below := by
      intro p q x
      exact h.below_moved hk hmeets hmoved
    shared := by
      intro p q x c
      exact h.shared_moved hk hmeets hmoved }

end Sweeping

end Skeleton

/-!
## Settling

A step that changes the tree lowers a parent or gives a first one.  So the sum of all
parents, where a missing parent counts as one behind the last position, bounds the number
of sweeps that change something.  A tree that no sweep changes is the tree of immediate
dominators: its ancestors are exactly the dominators.
-/

namespace DomTree

/-- The sum of the parents of the first `size` positions; `size` stands in for a missing
one. -/
def weight (size : Nat) (t : DomTree) : Nat :=
  ∑ p ∈ Finset.range size, (t.parent? p).getD size

variable {t u : DomTree} {k m : Nat}

theorem ext_parent? (hsize : u.size = t.size) (h : forall p, u.parent? p = t.parent? p) :
    u = t := by
  apply Array.ext hsize
  intro p hu ht
  have hp := h p
  simp only [parent?, Array.getD_eq_getD_getElem?] at hp
  rw [Array.getElem?_eq_getElem hu, Array.getElem?_eq_getElem ht] at hp
  exact hp

theorem Moved.eq_of_parent (h : t.Moved u k m) (hsize : u.size = t.size)
    (hm : t.parent? k = some m) : u = t := by
  apply ext_parent? hsize
  intro p
  by_cases hpk : p = k
  · subst hpk
    exact h.parent?_self.trans hm.symm
  · exact h.parent?_of_ne hpk

theorem Moved.lt_parent {z : Nat} (h : t.Moved u k m) (hz : t.parent? k = some z)
    (hm : t.parent? k ≠ some m) : m < z := by
  have hle := le_of_above (h.lowered z hz)
  have hne : z ≠ m := by
    intro hzm
    subst hzm
    exact hm hz
  lia

/-- A move that changes the tree makes it lighter. -/
theorem Moved.eq_or_lighter (h : t.Moved u k m) (hsize : u.size = t.size) (hk : k < t.size) :
    u = t ∨ u.weight t.size < t.weight t.size := by
  by_cases hsame : t.parent? k = some m
  · exact Or.inl (h.eq_of_parent hsize hsame)
  · apply Or.inr
    have hlt := h.lt
    have hless : (u.parent? k).getD t.size < (t.parent? k).getD t.size := by
      rw [h.parent?_self]
      cases hz : t.parent? k with
      | none =>
          show m < t.size
          lia
      | some z => exact h.lt_parent hz hsame
    apply Finset.sum_lt_sum
    · intro p _
      by_cases hpk : p = k
      · subst hpk
        exact le_of_lt hless
      · rw [h.parent?_of_ne hpk]
    · exact ⟨k, Finset.mem_range.mpr hk, hless⟩

end DomTree

namespace Skeleton

variable {s : Skeleton} {t : DomTree} {a j k p q x : Nat}

theorem Sweeping.size_place (hs : s.Rooted) (h : s.Sweeping t k) (hk0 : k ≠ 0)
    (hk : k < s.size) : (s.place t k).size = t.size := by
  rw [(h.place hs hk0 hk).size_eq, h.size_eq]

/-- One sweep, from position `k` on: the tree gets lighter or no step changes it. -/
theorem Sweeping.rest (hs : s.Rooted) (h : s.Sweeping t k) (hk0 : k ≠ 0)
    (hj : k + j = s.size) :
    s.Sweeping ((List.range' k j).foldl s.place t) s.size ∧
      (((List.range' k j).foldl s.place t).weight s.size < t.weight s.size ∨
        (List.range' k j).foldl s.place t = t ∧
          forall p, k ≤ p -> p < s.size -> s.place t p = t) := by
  induction j generalizing k t with
  | zero =>
      have hk : k = s.size := by lia
      subst hk
      exact ⟨h, Or.inr ⟨rfl, fun p hp hps => by lia⟩⟩
  | succ j ih =>
      have hk : k < s.size := by lia
      rcases h.place_eq hs hk0 hk with ⟨m, _, _, hmoved⟩
      have hstep := hmoved.eq_or_lighter (h.size_place hs hk0 hk) (by rw [h.size_eq]; exact hk)
      rw [h.size_eq] at hstep
      rcases ih (h.place hs hk0 hk) (by lia) (by lia) with ⟨hend, hcase⟩
      rw [List.range'_succ, List.foldl_cons]
      refine ⟨hend, ?_⟩
      rcases hstep with hsame | hlighter
      · rw [hsame] at hcase ⊢
        rcases hcase with hlighter | ⟨hfinal, hfixed⟩
        · exact Or.inl hlighter
        · refine Or.inr ⟨hfinal, fun p hkp hps => ?_⟩
          by_cases hpk : p = k
          · subst hpk
            exact hsame
          · exact hfixed p (by lia) hps
      · apply Or.inl
        rcases hcase with hlighter' | ⟨hfinal, _⟩
        · exact lt_trans hlighter' hlighter
        · rw [hfinal]
          exact hlighter

theorem lt_size_of_parent (hsize : t.size = s.size) (hq : t.parent? p = some q) :
    p < s.size := by
  by_contra hp
  have hnone : t.parent? p = none := by
    simp [DomTree.parent?, Array.getD_eq_getD_getElem?, hsize, Nat.le_of_not_lt hp]
  rw [hnone] at hq
  cases hq

/-- After a sweep the next one can start, or any part of one. -/
theorem Sweeping.restart (h : s.Sweeping t s.size) (k : Nat) : s.Sweeping t k :=
  { h with
    placed := fun p _ hps => h.placed p hps hps
    below := fun p q x hp0 hq hx hxp _ =>
      h.below p q x hp0 hq hx hxp (Or.inr (lt_size_of_parent h.size_eq hq)) }

theorem parent?_root (hpos : 0 < s.size) (p : Nat) :
    (DomTree.root s.size).parent? p = if p = 0 then some 0 else none := by
  rw [DomTree.root, DomTree.parent?_setIfInBounds (by simpa using hpos)]
  by_cases hp : p = 0
  · rw [if_pos hp, if_pos hp]
  · rw [if_neg hp, if_neg hp]
    by_cases hps : p < s.size
    · simp [DomTree.parent?, hps]
    · simp [DomTree.parent?, hps]

theorem sweeping_root (hpos : 0 < s.size) : s.Sweeping (DomTree.root s.size) 1 := by
  have hparent : forall p q, (DomTree.root s.size).parent? p = some q -> p = 0 ∧ q = 0 := by
    intro p q hq
    rw [parent?_root hpos] at hq
    by_cases hp : p = 0
    · rw [if_pos hp] at hq
      injection hq with hq
      exact ⟨hp, hq.symm⟩
    · rw [if_neg hp] at hq
      cases hq
  have hroot : (DomTree.root s.size).parent? 0 = some 0 := parent?_root hpos 0
  exact {
    size_eq := by simp [DomTree.root]
    grown :=
      { root := hroot
        lower := fun p q hq hp => absurd (hparent p q hq).1 hp
        placed := fun p q hq => ⟨0, by rw [(hparent p q hq).2]; exact hroot⟩ }
    placed := fun p hp _ => ⟨0, by rw [show p = 0 by lia]; exact hroot⟩
    earlier_placed := by
      intro p q hp hqp
      rcases hp with ⟨z, hz⟩
      have hp0 := (hparent p z hz).1
      lia
    faithful := by
      intro p q c hq hc hcp
      rcases hparent p q hq with ⟨rfl, rfl⟩
      exact absurd hc.eq_zero hcp
    lowest := fun p q c hp0 hq _ => absurd (hparent p q hq).1 hp0
    below := fun p q x hp0 hq _ _ _ => absurd (hparent p q hq).1 hp0
    shared := fun p q x c hp0 hq _ _ _ _ => absurd (hparent p q hq).1 hp0 }

/-!
### The settled tree
-/

/-- All positions are placed and no step changes the tree. -/
structure Settled (s : Skeleton) (t : DomTree) : Prop where
  swept : s.Sweeping t s.size
  fixed : forall p, p ≠ 0 -> p < s.size -> s.place t p = t

theorem Sweeping.settle (hs : s.Rooted) (hpos : 0 < s.size) {sweeps : Nat}
    (h : s.Sweeping t 1) (hsweeps : t.weight s.size < sweeps) :
    s.Settled (s.settle sweeps t) := by
  induction sweeps generalizing t with
  | zero => lia
  | succ sweeps ih =>
      have hrest := h.rest (j := s.size - 1) hs (by lia) (by lia)
      have hsweep : s.sweep t = (List.range' 1 (s.size - 1)).foldl s.place t := rfl
      rw [← hsweep] at hrest
      rcases hrest with ⟨hend, hcase⟩
      simp only [Skeleton.settle]
      by_cases hsame : s.sweep t = t
      · rw [if_pos hsame]
        rw [hsame] at hend hcase
        rcases hcase with hlighter | ⟨_, hfixed⟩
        · exact absurd hlighter (lt_irrefl _)
        · exact ⟨hend, fun p hp0 hps => hfixed p (by lia) hps⟩
      -- a sweep that changes the tree makes it lighter, so the sweeps do not run out
      · rw [if_neg hsame]
        rcases hcase with hlighter | ⟨hfinal, _⟩
        · exact ih (hend.restart 1) (by lia)
        · exact absurd hfinal hsame

theorem weight_root_le (hpos : 0 < s.size) :
    (DomTree.root s.size).weight s.size ≤ s.size * s.size := by
  have hle : forall p, p ∈ Finset.range s.size ->
      ((DomTree.root s.size).parent? p).getD s.size ≤ s.size := by
    intro p _
    rw [parent?_root hpos]
    by_cases hp : p = 0
    · rw [if_pos hp]
      exact Nat.zero_le _
    · rw [if_neg hp]
      exact le_refl _
  have hsum := Finset.sum_le_card_nsmul _ _ _ hle
  rw [Finset.card_range, smul_eq_mul] at hsum
  exact hsum

theorem settled_dominators (hs : s.Rooted) (hpos : 0 < s.size) : s.Settled s.dominators := by
  apply (sweeping_root hpos).settle hs hpos
  exact Nat.lt_succ_of_le (weight_root_le hpos)

namespace Settled

theorem placed (h : s.Settled t) (hp : p < s.size) : t.Placed p :=
  h.swept.placed p hp hp

/-- The parent of a position is an ancestor of every predecessor. -/
theorem parent_above_pred (hs : s.Rooted) (h : s.Settled t) (hp0 : p ≠ 0)
    (hq : t.parent? p = some q) (hx : x ∈ s.predsOf p) : t.above q x = true := by
  have hp : p < s.size := lt_size_of_parent h.swept.size_eq hq
  rcases (h.swept.restart p).place_eq hs hp0 hp with ⟨m, _, hmeets, hmoved⟩
  rw [h.fixed p hp0 hp] at hmoved
  have hqm : q = m := by
    have hm := hmoved.parent?_self
    rw [hq] at hm
    injection hm
  subst hqm
  exact (hmeets.common q).mp (t.above_self q) x hx (h.placed (hs.pred_lt p x hx))

/-- The ancestors of a position are its dominators. -/
theorem above_iff (hs : s.Rooted) (h : s.Settled t) (hp : p < s.size) :
    t.above a p = true <-> s.Dominates a p := by
  constructor
  · intro habove hbypass
    induction hbypass with
    | entry ha =>
        have hle := DomTree.le_of_above habove
        lia
    | step _ hedge hap ih =>
        rename_i q p _
        rcases DomTree.parent_of_above habove hap with ⟨z, hz, hlt, haz⟩
        have hzq := h.parent_above_pred hs (by lia) hz hedge
        exact ih (hs.pred_lt p q hedge) (DomTree.above_trans haz hzq)
  · intro hdom
    exact h.swept.above_of_dominates (h.placed hp) hdom

theorem parent_dominates (hs : s.Rooted) (h : s.Settled t) (hp0 : p ≠ 0)
    (hq : t.parent? p = some q) : q < p ∧ s.Dominates q p := by
  refine ⟨h.swept.grown.lower p q hq hp0, ?_⟩
  apply (h.above_iff hs (lt_size_of_parent h.swept.size_eq hq)).mp
  exact h.swept.grown.above_parent hq

/-- No parent in one settled tree stands behind the parent in another one. -/
theorem parent_le {u : DomTree} {r : Nat} (hs : s.Rooted) (h : s.Settled t) (h' : s.Settled u)
    (hq : t.parent? p = some q) (hr : u.parent? p = some r) : q ≤ r := by
  by_cases hp0 : p = 0
  · subst hp0
    rw [h.swept.grown.root] at hq
    cases hq
    exact Nat.zero_le r
  · rcases h.parent_dominates hs hp0 hq with ⟨hlt, hdom⟩
    have habove := (h'.above_iff hs (lt_size_of_parent h.swept.size_eq hq)).mpr hdom
    rcases DomTree.parent_of_above habove (ne_of_lt hlt) with ⟨z, hz, _, hqz⟩
    rw [hr] at hz
    cases hz
    exact DomTree.le_of_above hqz

/-- There is one settled tree. -/
theorem eq {u : DomTree} (hs : s.Rooted) (h : s.Settled t) (h' : s.Settled u) : u = t := by
  have hsize : u.size = t.size := h'.swept.size_eq.trans h.swept.size_eq.symm
  apply DomTree.ext_parent? hsize
  intro p
  by_cases hp : p < s.size
  · rcases h.placed hp with ⟨q, hq⟩
    rcases h'.placed hp with ⟨r, hr⟩
    rw [hq, hr, Nat.le_antisymm (h'.parent_le hs h hr hq) (h.parent_le hs h' hq hr)]
  · have hnone : forall v : DomTree, v.size = s.size -> v.parent? p = none := by
      intro v hv
      rw [← Option.not_isSome_iff_eq_none, Option.isSome_iff_exists]
      rintro ⟨q, hq⟩
      exact hp (lt_size_of_parent hv hq)
    rw [hnone u h'.swept.size_eq, hnone t h.swept.size_eq]

end Settled
end Skeleton

end LoopNest
