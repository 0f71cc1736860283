import LoopNest.Flow.Dominators
import Mathlib.Algebra.Order.Ring.Nat

/-!
# Moves of a sweep

Chains of dominators, and what one move of a sweep does to them.
-/

namespace LoopNest
namespace DomTree

/-!
## Ancestors in the dominator tree

Parents have smaller positions, so the ancestors of a position form a chain that ends at
the entry.  Two positions of a grown tree have a nearest common ancestor, and climbing
from the greater one finds it.
-/

def Placed (t : DomTree) (p : Nat) : Prop :=
  exists q, t.parent? p = some q

/-- The entry is its own parent; the parent of another position is an earlier position
that is placed itself. -/
structure Grown (t : DomTree) : Prop where
  root : t.parent? 0 = some 0
  lower : forall p q, t.parent? p = some q -> p ≠ 0 -> q < p
  placed : forall p q, t.parent? p = some q -> t.Placed q

variable {t u : DomTree} {a b c p q : Nat}

/-!
### The ancestor test
-/

@[simp] theorem above_self (t : DomTree) (a : Nat) : t.above a a = true := by
  rw [above, if_pos rfl]

/-- Ancestors are tested at the parent. -/
theorem above_of_parent (hp : t.parent? b = some p) (hlt : p < b) (hab : a ≠ b) :
    t.above a b = t.above a p := by
  rw [above, if_neg hab, hp]
  simp only [if_pos hlt]

theorem parent_of_above (h : t.above a b = true) (hab : a ≠ b) :
    exists p, t.parent? b = some p ∧ p < b ∧ t.above a p = true := by
  rw [above, if_neg hab] at h
  cases hp : t.parent? b with
  | none =>
      rw [hp] at h
      cases h
  | some p =>
      rw [hp] at h
      by_cases hlt : p < b
      · simp only [if_pos hlt] at h
        exact ⟨p, rfl, hlt, h⟩
      · simp only [if_neg hlt] at h
        cases h

theorem le_of_above (h : t.above a b = true) : a ≤ b := by
  induction b using Nat.strong_induction_on with
  | h b ih =>
      by_cases hab : a = b
      · exact le_of_eq hab
      · rcases parent_of_above h hab with ⟨p, _, hlt, hp⟩
        exact le_trans (ih p hlt hp) (le_of_lt hlt)

theorem above_trans (hab : t.above a b = true) (hbc : t.above b c = true) :
    t.above a c = true := by
  induction c using Nat.strong_induction_on with
  | h c ih =>
      by_cases hb : b = c
      · subst hb
        exact hab
      · rcases parent_of_above hbc hb with ⟨p, hparent, hlt, hp⟩
        have hac : a ≠ c := by
          have hle := le_of_above hab
          have hle' := le_of_above hp
          lia
        rw [above_of_parent hparent hlt hac]
        exact ih p hlt hp

/-- Of two ancestors of one position the earlier is an ancestor of the later. -/
theorem above_of_le (hac : t.above a c = true) (hbc : t.above b c = true) (hle : a ≤ b) :
    t.above a b = true := by
  induction c using Nat.strong_induction_on with
  | h c ih =>
      by_cases hb : b = c
      · subst hb
        exact hac
      · rcases parent_of_above hbc hb with ⟨p, hparent, hlt, hp⟩
        have ha : a ≠ c := by
          have hle' := le_of_above hp
          lia
        rw [above_of_parent hparent hlt ha] at hac
        exact ih p hlt hac hp

/-- The test looks only at parents of positions behind the supposed ancestor. -/
theorem above_congr (h : forall x, a < x -> x ≤ b -> u.parent? x = t.parent? x) :
    u.above a b = t.above a b := by
  induction b using Nat.strong_induction_on with
  | h b ih =>
      by_cases hab : a < b
      · have hparent := h b hab (le_refl b)
        cases hp : t.parent? b with
        | none =>
            rw [above, above, if_neg (by lia), if_neg (by lia), hparent, hp]
        | some p =>
            by_cases hlt : p < b
            · rw [above_of_parent (hparent.trans hp) hlt (by lia),
                above_of_parent hp hlt (by lia)]
              exact ih p hlt fun x hax hxp => h x hax (by lia)
            · rw [above, above, if_neg (by lia), if_neg (by lia), hparent, hp]
              simp only [if_neg hlt]
      · by_cases heq : a = b
        · subst heq
          simp
        · have hfalse : forall v : DomTree, v.above a b = false := by
            intro v
            by_contra hv
            have hle := le_of_above (Bool.not_eq_false _ ▸ hv)
            lia
          rw [hfalse, hfalse]

namespace Grown

theorem above_parent (h : t.Grown) (hp : t.parent? b = some p) : t.above p b = true := by
  by_cases hb : b = 0
  · subst hb
    rw [h.root] at hp
    injection hp with hzero
    subst hzero
    exact above_self t 0
  · have hlt := h.lower b p hp hb
    rw [above_of_parent hp hlt (by lia)]
    exact above_self t p

/-!
### The nearest common ancestor
-/

/-- The ancestors of the meeting point are the common ancestors. -/
theorem meet_spec (h : t.Grown) (ha : t.Placed a) (hb : t.Placed b) :
    t.Placed (t.meet a b) ∧
      forall c, t.above c (t.meet a b) = true <-> t.above c a = true ∧ t.above c b = true := by
  induction a, b using meet.induct t with
  | case1 b =>
      rw [meet, if_pos rfl]
      exact ⟨ha, fun c => (and_self_iff).symm⟩
  | case2 a b hne hlt hparent =>
      rcases ha with ⟨p, hp⟩
      rw [hparent] at hp
      cases hp
  | case3 a b hne hlt p hparent hpa ih =>
      rcases ih (h.placed a p hparent) hb with ⟨hplaced, hcommon⟩
      rw [meet, if_neg hne, if_pos hlt, hparent]
      simp only [if_pos hpa]
      refine ⟨hplaced, fun c => (hcommon c).trans (and_congr_left fun hcb => ?_)⟩
      have hle := le_of_above hcb
      rw [above_of_parent hparent hpa (by lia)]
  | case4 a b hne hlt p hparent hpa =>
      exact absurd (h.lower a p hparent (by lia)) hpa
  | case5 a b hne hlt hparent =>
      rcases hb with ⟨p, hp⟩
      rw [hparent] at hp
      cases hp
  | case6 a b hne hlt p hparent hpb ih =>
      rcases ih ha (h.placed b p hparent) with ⟨hplaced, hcommon⟩
      rw [meet, if_neg hne, if_neg hlt, hparent]
      simp only [if_pos hpb]
      refine ⟨hplaced, fun c => (hcommon c).trans (and_congr_right fun hca => ?_)⟩
      have hle := le_of_above hca
      rw [above_of_parent hparent hpb (by lia)]
  | case7 a b hne hlt p hparent hpb =>
      exact absurd (h.lower b p hparent (by lia)) hpb

end Grown

end DomTree
end LoopNest

namespace LoopNest
namespace DomTree

/-!
## Moves in the dominator tree

A position is placed below the meeting point of its placed predecessors.  This module says
what the meeting point is and what one such move does to the ancestors of all positions.
-/

/-- `r` is placed, and its ancestors are the common ancestors of the placed members of
`qs`. -/
structure Meets (t : DomTree) (qs : List Nat) (r : Nat) : Prop where
  placed : t.Placed r
  common : forall c, t.above c r = true <->
    forall q, q ∈ qs -> t.Placed q -> t.above c q = true

/-- The meeting point of one more position and those before it. -/
def join (t : DomTree) (found : Option Nat) (q : Nat) : Option Nat :=
  match t.parent? q with
  | none => found
  | some _ =>
      match found with
      | none => some q
      | some r => some (t.meet q r)

variable {t u : DomTree} {a c k m p q : Nat} {qs : List Nat}

theorem join_none (h : ¬ t.Placed q) (found : Option Nat) : t.join found q = found := by
  cases hq : t.parent? q with
  | none => simp [join, hq]
  | some p => exact absurd ⟨p, hq⟩ h

theorem join_some (h : t.Placed q) (found : Option Nat) :
    t.join found q = some (match found with | none => q | some r => t.meet q r) := by
  rcases h with ⟨p, hp⟩
  cases found <;> simp [join, hp]

theorem foldl_join_some (h : t.Grown) (ha : t.Placed a) :
    exists r, qs.foldl t.join (some a) = some r ∧ t.Meets (a :: qs) r := by
  induction qs generalizing a with
  | nil =>
      refine ⟨a, rfl, ha, fun c => ?_⟩
      simp [ha]
  | cons q qs ih =>
      by_cases hq : t.Placed q
      · have hmeet := h.meet_spec hq ha
        rcases ih hmeet.1 with ⟨r, hfold, hr⟩
        refine ⟨r, ?_, hr.placed, fun c => ?_⟩
        · rw [List.foldl_cons, join_some hq]
          exact hfold
        · have hboth := hmeet.2 c
          rw [hr.common c]
          simp only [List.forall_mem_cons]
          tauto
      · rcases ih ha with ⟨r, hfold, hr⟩
        refine ⟨r, ?_, hr.placed, fun c => ?_⟩
        · rw [List.foldl_cons, join_none hq]
          exact hfold
        · rw [hr.common c]
          simp only [List.forall_mem_cons]
          tauto

/-- The placed members of a list meet as soon as there is one. -/
theorem foldl_join_none (h : t.Grown) (hq : q ∈ qs) (hplaced : t.Placed q) :
    exists r, qs.foldl t.join none = some r ∧ t.Meets qs r := by
  induction qs with
  | nil => cases hq
  | cons x qs ih =>
      by_cases hx : t.Placed x
      · rw [List.foldl_cons, join_some hx]
        exact foldl_join_some h hx
      · rcases List.mem_cons.mp hq with rfl | hq
        · exact absurd hplaced hx
        · rcases ih hq with ⟨r, hfold, hr⟩
          refine ⟨r, ?_, hr.placed, fun c => ?_⟩
          · rw [List.foldl_cons, join_none hx]
            exact hfold
          · rw [hr.common c]
            simp only [List.forall_mem_cons]
            tauto

/-!
### Moving one parent
-/

theorem parent?_setIfInBounds (hk : k < t.size) (p : Nat) :
    parent? (t.setIfInBounds k (some m)) p = if p = k then some m else t.parent? p := by
  unfold parent?
  simp only [Array.getD_eq_getD_getElem?, Array.getElem?_setIfInBounds]
  by_cases hp : p = k
  · subst hp
    simp [hk]
  · rw [if_neg (fun h => hp h.symm), if_neg hp]

/-- `u` differs from `t` in that `k` stands below `m`, a placed position before it; if `k`
has been placed before, then `m` is an ancestor of its old parent. -/
structure Moved (t u : DomTree) (k m : Nat) : Prop where
  parents : forall p, u.parent? p = if p = k then some m else t.parent? p
  lt : m < k
  placed : t.Placed m
  lowered : forall z, t.parent? k = some z -> t.above m z = true

namespace Moved

theorem parent?_self (h : t.Moved u k m) : u.parent? k = some m := by
  rw [h.parents, if_pos rfl]

theorem parent?_of_ne (h : t.Moved u k m) (hp : p ≠ k) : u.parent? p = t.parent? p := by
  rw [h.parents, if_neg hp]

/-- A parent after the move is the new one or an old one. -/
theorem parent_cases (h : t.Moved u k m) (hq : u.parent? p = some q) :
    (p = k ∧ q = m) ∨ (p ≠ k ∧ t.parent? p = some q) := by
  by_cases hpk : p = k
  · subst hpk
    rw [h.parent?_self] at hq
    injection hq with hmq
    exact Or.inl ⟨rfl, hmq.symm⟩
  · rw [h.parent?_of_ne hpk] at hq
    exact Or.inr ⟨hpk, hq⟩

theorem placed_iff (h : t.Moved u k m) : u.Placed p <-> p = k ∨ t.Placed p := by
  constructor
  · intro hp
    rcases hp with ⟨q, hq⟩
    rcases h.parent_cases hq with ⟨hpk, _⟩ | ⟨_, hq⟩
    · exact Or.inl hpk
    · exact Or.inr ⟨q, hq⟩
  · intro hp
    by_cases hpk : p = k
    · subst hpk
      exact ⟨m, h.parent?_self⟩
    · rcases hp with hpk' | ⟨q, hq⟩
      · exact absurd hpk' hpk
      · exact ⟨q, (h.parent?_of_ne hpk).trans hq⟩

theorem placed_of_placed (h : t.Moved u k m) (hp : t.Placed p) : u.Placed p :=
  h.placed_iff.mpr (Or.inr hp)

/-- Tests that stay before `k`, or end at `k` and behind it, do not notice the move. -/
theorem above_eq (h : t.Moved u k m) (hk : k ≤ a ∨ p < k) :
    u.above a p = t.above a p := by
  apply above_congr
  intro x hax hxp
  exact h.parent?_of_ne (by lia)

theorem grown (h : t.Moved u k m) (ht : t.Grown) : u.Grown where
  root := (h.parent?_of_ne (by have := h.lt; lia)).trans ht.root
  lower := by
    intro p q hq hp
    rcases h.parent_cases hq with ⟨rfl, rfl⟩ | ⟨_, hq⟩
    · exact h.lt
    · exact ht.lower p q hq hp
  placed := by
    intro p q hq
    apply h.placed_of_placed
    rcases h.parent_cases hq with ⟨rfl, rfl⟩ | ⟨_, hq⟩
    · exact h.placed
    · exact ht.placed p q hq

/-- No placed position gains ancestors by the move. -/
theorem above_of_above (h : t.Moved u k m) (ht : t.Grown) (hp : t.Placed p)
    (hc : u.above c p = true) : t.above c p = true := by
  induction p using Nat.strong_induction_on with
  | h p ih =>
      by_cases hcp : c = p
      · subst hcp
        exact above_self t c
      · rcases parent_of_above hc hcp with ⟨q, hq, hlt, hcq⟩
        rcases hp with ⟨z, hz⟩
        have hzp := ht.above_parent hz
        rcases h.parent_cases hq with ⟨rfl, rfl⟩ | ⟨_, hq⟩
        · have hcm := ih q hlt h.placed hcq
          exact above_trans hcm (above_trans (h.lowered z hz) hzp)
        · rw [hz] at hq
          injection hq with hzq
          subst hzq
          exact above_trans (ih z hlt (ht.placed p z hz) hcq) hzp

end Moved

end DomTree
end LoopNest
