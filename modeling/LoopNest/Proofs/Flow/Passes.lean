import LoopNest.Proofs.Flow.Dominance
import Mathlib.Logic.Relation

/-!
# Passes

The dominator tree is found by passes over the positions, until a pass changes nothing.
Told step by step, nothing bounds the number of passes, nothing bounds a climb to a meeting
point, and a climb that comes to a position without a parent cannot go on.  The main
statement says that every graph does without such bounds: all climbs come to an end, a
parent that changes gets smaller, and so the passes come to an end as well, at the tree of
immediate dominators.
-/

namespace LoopNest
namespace DomTree

/-- Of two positions the greater one climbs to its parent, until both are at `m`. -/
inductive Converge (t : DomTree) : (a b m : Nat) -> Prop where
  | meet (a : Nat) : Converge t a a a
  | left {a b p m : Nat} :
      b < a -> t.parent? a = some p -> Converge t p b m -> Converge t a b m
  | right {a b p m : Nat} :
      a < b -> t.parent? b = some p -> Converge t a p m -> Converge t a b m

/-- The parents of a position get smaller and smaller down to the entry. -/
inductive Descends (t : DomTree) : Nat -> Prop where
  | entry : t.parent? 0 = some 0 -> Descends t 0
  | step {p q : Nat} : t.parent? p = some q -> q < p -> Descends t q -> Descends t p

/-- Goes through the predecessors `qs` with `found` as the meeting point so far.  Those
without a parent are passed over, the first of the others is taken, and each later one
climbs together with what has been found.  The pairs that climb are listed in `climbs`. -/
inductive Gather (t : DomTree) :
    (found : Option Nat) -> (qs : List Nat) -> (climbs : List (Nat × Nat)) ->
      (result : Option Nat) -> Prop where
  | done (found : Option Nat) : Gather t found [] [] found
  | pass {found result : Option Nat} {q : Nat} {qs : List Nat} {climbs : List (Nat × Nat)} :
      t.parent? q = none -> Gather t found qs climbs result ->
        Gather t found (q :: qs) climbs result
  | first {result : Option Nat} {q z : Nat} {qs : List Nat} {climbs : List (Nat × Nat)} :
      t.parent? q = some z -> Gather t (some q) qs climbs result ->
        Gather t none (q :: qs) climbs result
  | climb {result : Option Nat} {a q z m : Nat} {qs : List Nat} {climbs : List (Nat × Nat)} :
      t.parent? q = some z -> Converge t q a m -> Gather t (some m) qs climbs result ->
        Gather t (some a) (q :: qs) ((q, a) :: climbs) result

variable {t : DomTree} {a b m p : Nat} {qs : List Nat} {found result : Option Nat}
  {climbs : List (Nat × Nat)}

/-!
## Climbs
-/

theorem Converge.unique {m' : Nat} (h : t.Converge a b m) (h' : t.Converge a b m') : m' = m := by
  induction h with
  | meet a =>
      cases h' with
      | meet => rfl
      | left hlt | right hlt => exact absurd hlt (lt_irrefl _)
  | left hlt hp _ ih =>
      cases h' with
      | meet => exact absurd hlt (lt_irrefl _)
      | left _ hp' hclimb =>
          rw [hp] at hp'
          cases hp'
          exact ih hclimb
      | right hlt' => exact absurd hlt' (lt_asymm hlt)
  | right hlt hp _ ih =>
      cases h' with
      | meet => exact absurd hlt (lt_irrefl _)
      | left hlt' => exact absurd hlt' (lt_asymm hlt)
      | right _ hp' hclimb =>
          rw [hp] at hp'
          cases hp'
          exact ih hclimb

namespace Grown

theorem descends (h : t.Grown) (hp : t.Placed p) : t.Descends p := by
  induction p using Nat.strong_induction_on with
  | h p ih =>
      rcases hp with ⟨q, hq⟩
      by_cases hp0 : p = 0
      · subst hp0
        exact Descends.entry h.root
      · have hlt := h.lower p q hq hp0
        exact Descends.step hq hlt (ih q hlt (h.placed p q hq))

theorem converge_meet (h : t.Grown) (ha : t.Placed a) (hb : t.Placed b) :
    t.Converge a b (t.meet a b) := by
  induction a, b using meet.induct t with
  | case1 b =>
      rw [meet, if_pos rfl]
      exact Converge.meet b
  | case2 a b hne hlt hparent =>
      rcases ha with ⟨p, hp⟩
      rw [hparent] at hp
      cases hp
  | case3 a b hne hlt p hparent hpa ih =>
      rw [meet, if_neg hne, if_pos hlt, hparent]
      simp only [if_pos hpa]
      exact Converge.left hlt hparent (ih (h.placed a p hparent) hb)
  | case4 a b hne hlt p hparent hpa =>
      exact absurd (h.lower a p hparent (by lia)) hpa
  | case5 a b hne hlt hparent =>
      rcases hb with ⟨p, hp⟩
      rw [hparent] at hp
      cases hp
  | case6 a b hne hlt p hparent hpb ih =>
      rw [meet, if_neg hne, if_neg hlt, hparent]
      simp only [if_pos hpb]
      exact Converge.right (by lia) hparent (ih ha (h.placed b p hparent))
  | case7 a b hne hlt p hparent hpb =>
      exact absurd (h.lower b p hparent (by lia)) hpb

theorem meet_le (h : t.Grown) (ha : t.Placed a) (hb : t.Placed b) : t.meet a b ≤ min a b := by
  have hcommon := ((h.meet_spec ha hb).2 (t.meet a b)).mp (t.above_self _)
  exact le_min (le_of_above hcommon.1) (le_of_above hcommon.2)

end Grown

/-!
## Meeting points
-/

theorem Gather.unique {result' : Option Nat} {climbs' : List (Nat × Nat)}
    (h : t.Gather found qs climbs result) (h' : t.Gather found qs climbs' result') :
    result' = result := by
  induction h generalizing climbs' with
  | done found =>
      cases h'
      rfl
  | pass hq _ ih =>
      cases h' with
      | pass _ hrest => exact ih hrest
      | first hq' | climb hq' =>
          rw [hq] at hq'
          cases hq'
  | first hq _ ih =>
      cases h' with
      | pass hq' =>
          rw [hq] at hq'
          cases hq'
      | first _ hrest => exact ih hrest
  | climb hq hclimb _ ih =>
      cases h' with
      | pass hq' =>
          rw [hq] at hq'
          cases hq'
      | climb _ hclimb' hrest =>
          cases hclimb.unique hclimb'
          exact ih hrest

theorem Placed.of_some {q : Nat} (h : t.Placed q) : forall a, some q = some a -> t.Placed a := by
  intro a heq
  cases heq
  exact h

theorem Grown.gather (h : t.Grown) (hfound : forall a, found = some a -> t.Placed a) :
    exists climbs, t.Gather found qs climbs (qs.foldl t.join found) := by
  induction qs generalizing found with
  | nil => exact ⟨[], Gather.done found⟩
  | cons q qs ih =>
      rw [List.foldl_cons]
      cases hq : t.parent? q with
      | none =>
          have hnot : ¬ t.Placed q := by
            intro hplaced
            rcases hplaced with ⟨z, hz⟩
            rw [hq] at hz
            cases hz
          rw [join_none hnot]
          rcases ih hfound with ⟨climbs, hrest⟩
          exact ⟨climbs, Gather.pass hq hrest⟩
      | some z =>
          have hplaced : t.Placed q := ⟨z, hq⟩
          rw [join_some hplaced]
          cases found with
          | none =>
              rcases ih hplaced.of_some with ⟨climbs, hrest⟩
              exact ⟨climbs, Gather.first hq hrest⟩
          | some a =>
              have ha := hfound a rfl
              have hmeet := (h.meet_spec hplaced ha).1
              rcases ih hmeet.of_some with ⟨climbs, hrest⟩
              exact ⟨(q, a) :: climbs, Gather.climb hq (h.converge_meet hplaced ha) hrest⟩

theorem Gather.placed (h : t.Gather found qs climbs result) (ht : t.Grown)
    (hfound : forall a, found = some a -> t.Placed a) :
    forall a b, (a, b) ∈ climbs -> t.Placed a ∧ t.Placed b := by
  induction h with
  | done found =>
      intro a b hmem
      cases hmem
  | pass _ _ ih => exact ih hfound
  | first hq _ ih =>
      have hplaced : t.Placed _ := ⟨_, hq⟩
      exact ih hplaced.of_some
  | climb hq hclimb _ ih =>
      rename_i result a q z m qs climbs hrest
      have hplaced : t.Placed q := ⟨z, hq⟩
      have ha := hfound a rfl
      have hm : t.Placed m := by
        rw [(ht.converge_meet hplaced ha).unique hclimb]
        exact (ht.meet_spec hplaced ha).1
      intro b c hmem
      rcases List.mem_cons.mp hmem with heq | hmem
      · cases heq
        exact ⟨hplaced, ha⟩
      · exact ih hm.of_some b c hmem

end DomTree
namespace Skeleton

/-- Where the passes stand: the tree, the position that comes next, whether this pass has
changed the tree, and how many passes before it have. -/
structure Pass where
  tree : DomTree
  next : Nat
  changed : Bool
  changes : Nat

/-- A step puts the next position below what its predecessors gather, or starts the next
pass when a pass that changed the tree is over. -/
inductive Step (s : Skeleton) : Pass -> Pass -> Prop where
  | keep {t : DomTree} {k count : Nat} {changed : Bool} {climbs : List (Nat × Nat)}
      {found : Option Nat} :
      k < s.size -> t.Gather none (s.predsOf k) climbs found ->
        found = none ∨ t.parent? k = found ->
        Step s ⟨t, k, changed, count⟩ ⟨t, k + 1, changed, count⟩
  | move {t : DomTree} {k count m : Nat} {changed : Bool} {climbs : List (Nat × Nat)} :
      k < s.size -> t.Gather none (s.predsOf k) climbs (some m) -> t.parent? k ≠ some m ->
        Step s ⟨t, k, changed, count⟩ ⟨t.setIfInBounds k (some m), k + 1, true, count⟩
  | again {t : DomTree} {count : Nat} :
      Step s ⟨t, s.size, true, count⟩ ⟨t, 1, false, count + 1⟩

def firstPass (s : Skeleton) : Pass :=
  ⟨DomTree.root s.size, 1, false, 0⟩

/-- The passes come to this point. -/
def Run (s : Skeleton) (σ : Pass) : Prop :=
  Relation.ReflTransGen s.Step s.firstPass σ

def Pass.Halted (s : Skeleton) (σ : Pass) : Prop :=
  σ.next = s.size ∧ σ.changed = false

/-- What holds at every moment of the passes. -/
structure Sound (s : Skeleton) (σ : Pass) : Prop where
  lower : forall p q, σ.tree.parent? p = some q -> 0 < p -> q < p
  descends : forall p q, σ.tree.parent? p = some q -> σ.tree.Descends p
  /-- The climbs of a step start at placed positions and end. -/
  climbs : forall climbs found, σ.tree.Gather none (s.predsOf σ.next) climbs found ->
    forall a b, (a, b) ∈ climbs -> σ.tree.Placed a ∧ σ.tree.Placed b ∧
      exists m, (forall m', σ.tree.Converge a b m' <-> m' = m) ∧ m ≤ min a b
  /-- There is one way to go on, but for the end. -/
  goes_on : σ.Halted s ∧ (forall τ, ¬ s.Step σ τ) ∨ exists τ, forall υ, s.Step σ υ <-> υ = τ
  /-- A parent that changes gets smaller. -/
  lowers : forall τ p q, s.Step σ τ -> σ.tree.parent? p = some q ->
    τ.tree.parent? p = some q ∨ exists r, τ.tree.parent? p = some r ∧ r < q
  changes_le : σ.changes ≤ s.size * s.size

variable {s : Skeleton} {t u : DomTree} {σ τ : Pass} {p k m : Nat}

/-!
## What a step does
-/

/-- What carries the passes from step to step: the invariant of the sweep, and a weight for
each pass that changes the tree. -/
structure Passing (s : Skeleton) (σ : Pass) : Prop where
  sweeping : s.Sweeping σ.tree σ.next
  next_pos : 0 < σ.next
  next_le : σ.next ≤ s.size
  unchanged : σ.changed = false -> forall p, 0 < p -> p < σ.next -> s.place σ.tree p = σ.tree
  weight_le : σ.tree.weight s.size + σ.changes + σ.changed.toNat ≤ s.size * s.size

/-- The steps that are left: the rest of this pass, and a pass for each change that can
still come. -/
def Pass.left (s : Skeleton) (σ : Pass) : Nat :=
  (2 * σ.tree.weight s.size + σ.changed.toNat) * (s.size + 1) + (s.size - σ.next)

theorem passing_first (hpos : 0 < s.size) : s.Passing s.firstPass where
  sweeping := sweeping_root hpos
  next_pos := Nat.one_pos
  next_le := hpos
  unchanged := by
    intro _ p hp0 hp
    have hp : p < 1 := hp
    lia
  weight_le := weight_root_le hpos

namespace Passing

variable (h : s.Passing σ)
include h

theorem gather : exists climbs,
    σ.tree.Gather none (s.predsOf σ.next) climbs (s.meetingPoint σ.tree σ.next) :=
  h.sweeping.grown.gather fun a ha => by cases ha

/-- Inside a pass there is one step: the position is moved to its meeting point, or stays
below it. -/
theorem step_cases (hs : s.Rooted) (hk : σ.next < s.size) :
    exists m, σ.tree.Moved (s.place σ.tree σ.next) σ.next m ∧
      (σ.tree.parent? σ.next = some m ∧
          (forall υ, s.Step σ υ <-> υ = ⟨σ.tree, σ.next + 1, σ.changed, σ.changes⟩) ∨
        σ.tree.parent? σ.next ≠ some m ∧
          forall υ, s.Step σ υ <->
            υ = ⟨s.place σ.tree σ.next, σ.next + 1, true, σ.changes⟩) := by
  rcases h.sweeping.place_eq hs (ne_of_gt h.next_pos) hk with ⟨m, hpoint, _, hmoved⟩
  have hplace := Sweeping.place_of_point hpoint
  rcases h.gather with ⟨climbs, hgather⟩
  rw [hpoint] at hgather
  refine ⟨m, hmoved, ?_⟩
  rcases σ with ⟨t, k, changed, count⟩
  by_cases hm : t.parent? k = some m
  · refine Or.inl ⟨hm, fun υ => ⟨fun hstep => ?_, fun hυ => ?_⟩⟩
    · cases hstep with
      | keep => rfl
      | move _ hgather' hne =>
          cases hgather.unique hgather'
          exact absurd hm hne
      | again => exact absurd hk (lt_irrefl _)
    · subst hυ
      exact Step.keep hk hgather (Or.inr hm)
  · refine Or.inr ⟨hm, fun υ => ⟨fun hstep => ?_, fun hυ => ?_⟩⟩
    · cases hstep with
      | keep _ hgather' hfound =>
          cases hgather.unique hgather'
          rcases hfound with hnone | hparent
          · cases hnone
          · exact absurd hparent hm
      | move _ hgather' _ =>
          cases hgather.unique hgather'
          rw [hplace]
      | again => exact absurd hk (lt_irrefl _)
    · subst hυ
      rw [hplace]
      exact Step.move hk hgather hm

theorem keep (hs : s.Rooted) (hk : σ.next < s.size)
    (hmoved : σ.tree.Moved (s.place σ.tree σ.next) σ.next m)
    (hm : σ.tree.parent? σ.next = some m) :
    s.Passing ⟨σ.tree, σ.next + 1, σ.changed, σ.changes⟩ := by
  have hnext0 := ne_of_gt h.next_pos
  have hsame := hmoved.eq_of_parent (h.sweeping.size_place hs hnext0 hk) hm
  have hsweeping := h.sweeping.place hs hnext0 hk
  rw [hsame] at hsweeping
  exact {
    sweeping := hsweeping
    next_pos := Nat.succ_pos _
    next_le := hk
    unchanged := by
      intro hchanged p hp0 hp
      rcases Nat.lt_succ_iff_lt_or_eq.mp hp with hp | rfl
      · exact h.unchanged hchanged p hp0 hp
      · exact hsame
    weight_le := h.weight_le }

theorem lighter (hs : s.Rooted) (hk : σ.next < s.size)
    (hmoved : σ.tree.Moved (s.place σ.tree σ.next) σ.next m)
    (hm : σ.tree.parent? σ.next ≠ some m) :
    (s.place σ.tree σ.next).weight s.size < σ.tree.weight s.size := by
  have hsize := h.sweeping.size_place hs (ne_of_gt h.next_pos) hk
  have hcase := hmoved.eq_or_lighter hsize (by rw [h.sweeping.size_eq]; exact hk)
  rw [h.sweeping.size_eq] at hcase
  rcases hcase with hsame | hlighter
  · rw [hsame] at hmoved
    exact absurd hmoved.parent?_self hm
  · exact hlighter

theorem move (hs : s.Rooted) (hk : σ.next < s.size)
    (hmoved : σ.tree.Moved (s.place σ.tree σ.next) σ.next m)
    (hm : σ.tree.parent? σ.next ≠ some m) :
    s.Passing ⟨s.place σ.tree σ.next, σ.next + 1, true, σ.changes⟩ where
  sweeping := h.sweeping.place hs (ne_of_gt h.next_pos) hk
  next_pos := Nat.succ_pos _
  next_le := hk
  unchanged := by
    intro hchanged
    cases hchanged
  weight_le := by
    have hlighter := h.lighter hs hk hmoved hm
    have hle := h.weight_le
    rw [Bool.toNat_true]
    lia

theorem again (hk : σ.next = s.size) (hchanged : σ.changed = true) :
    s.Passing ⟨σ.tree, 1, false, σ.changes + 1⟩ where
  sweeping := Sweeping.restart (hk ▸ h.sweeping) 1
  next_pos := Nat.one_pos
  next_le := hk ▸ h.next_pos
  unchanged := by
    intro _ p hp0 hp
    exact absurd hp0 (Nat.not_lt.mpr (Nat.le_of_lt_succ hp))
  weight_le := by
    have hle := h.weight_le
    rw [hchanged, Bool.toNat_true] at hle
    rw [Bool.toNat_false]
    lia

/-- The passes are over, or there is one step: it keeps the invariant, leaves fewer steps
and moves parents towards the entry only. -/
theorem advance (hs : s.Rooted) :
    σ.Halted s ∧ (forall τ, ¬ s.Step σ τ) ∨
      exists τ, (forall υ, s.Step σ υ <-> υ = τ) ∧ s.Passing τ ∧ τ.left s < σ.left s ∧
        forall p q, σ.tree.parent? p = some q ->
          τ.tree.parent? p = some q ∨ exists r, τ.tree.parent? p = some r ∧ r < q := by
  by_cases hk : σ.next < s.size
  · rcases h.step_cases hs hk with ⟨m, hmoved, ⟨hm, hstep⟩ | ⟨hm, hstep⟩⟩
    · refine Or.inr ⟨_, hstep, h.keep hs hk hmoved hm, ?_, fun p q hq => Or.inl hq⟩
      show _ + _ < _ + _
      lia
    · refine Or.inr ⟨_, hstep, h.move hs hk hmoved hm, ?_, fun p q hq => ?_⟩
      · have hlighter := h.lighter hs hk hmoved hm
        have hfewer : 2 * (s.place σ.tree σ.next).weight s.size + 1 ≤
            2 * σ.tree.weight s.size + σ.changed.toNat := by lia
        have hmul := Nat.mul_le_mul_right (s.size + 1) hfewer
        show _ + _ < _ + _
        have hmul : (2 * (s.place σ.tree σ.next).weight s.size + true.toNat) * (s.size + 1) ≤ _ :=
          hmul
        lia
      · by_cases hpk : p = σ.next
        · subst hpk
          exact Or.inr ⟨m, hmoved.parent?_self, hmoved.lt_parent hq hm⟩
        · exact Or.inl ((hmoved.parent?_of_ne hpk).trans hq)
  · have hsize : σ.next = s.size := Nat.le_antisymm h.next_le (Nat.le_of_not_lt hk)
    rcases σ with ⟨t, k, changed, count⟩
    subst hsize
    cases changed with
    | false =>
        refine Or.inl ⟨⟨rfl, rfl⟩, fun τ hstep => ?_⟩
        cases hstep with
        | keep hlt | move hlt => exact absurd hlt hk
    | true =>
        refine Or.inr ⟨_, fun υ => ⟨fun hstep => ?_, fun hυ => ?_⟩, h.again rfl rfl, ?_,
          fun p q hq => Or.inl hq⟩
        · cases hstep with
          | keep hlt | move hlt => exact absurd hlt hk
          | again => rfl
        · subst hυ
          exact Step.again
        · simp only [Pass.left, Bool.toNat_true, Bool.toNat_false, Nat.add_mul]
          lia

/-!
## The run of all passes
-/

theorem sound (hs : s.Rooted) : s.Sound σ where
  lower := fun p q hq hp0 => h.sweeping.grown.lower p q hq (ne_of_gt hp0)
  descends := fun p q hq => h.sweeping.grown.descends ⟨q, hq⟩
  climbs := by
    intro climbs found hgather a b hmem
    have hgrown := h.sweeping.grown
    rcases hgather.placed hgrown (fun a ha => by cases ha) a b hmem with ⟨ha, hb⟩
    have hmeet := hgrown.converge_meet ha hb
    refine ⟨ha, hb, σ.tree.meet a b, fun m => ⟨hmeet.unique, fun hm => ?_⟩, hgrown.meet_le ha hb⟩
    subst hm
    exact hmeet
  goes_on := by
    rcases h.advance hs with hend | ⟨τ, hstep, _⟩
    · exact Or.inl hend
    · exact Or.inr ⟨τ, hstep⟩
  lowers := by
    intro τ p q hτ hq
    rcases h.advance hs with ⟨_, hnone⟩ | ⟨υ, hstep, _, _, hlowers⟩
    · exact absurd hτ (hnone τ)
    · cases (hstep τ).mp hτ
      exact hlowers p q hq
  changes_le := by
    have hle := h.weight_le
    lia

theorem acc (hs : s.Rooted) : Acc (fun τ σ => s.Step σ τ) σ := by
  induction hleft : σ.left s using Nat.strongRecOn generalizing σ with
  | ind left ih =>
      apply Acc.intro
      intro υ hυ
      rcases h.advance hs with ⟨_, hnone⟩ | ⟨τ, hstep, hτ, hlt, _⟩
      · exact absurd hυ (hnone υ)
      · cases (hstep υ).mp hυ
        exact ih _ (hleft ▸ hlt) hτ rfl

theorem exists_halted (hs : s.Rooted) :
    exists τ, Relation.ReflTransGen s.Step σ τ ∧ τ.Halted s := by
  induction hleft : σ.left s using Nat.strongRecOn generalizing σ with
  | ind left ih =>
      rcases h.advance hs with ⟨hend, _⟩ | ⟨τ, hstep, hτ, hlt, _⟩
      · exact ⟨σ, Relation.ReflTransGen.refl, hend⟩
      · rcases ih _ (hleft ▸ hlt) hτ rfl with ⟨υ, hrun, hend⟩
        exact ⟨υ, Relation.ReflTransGen.head ((hstep τ).mpr rfl) hrun, hend⟩

/-- A pass without a change leaves the settled tree. -/
theorem settled (hend : σ.Halted s) : s.Settled σ.tree where
  swept := hend.1 ▸ h.sweeping
  fixed := by
    intro p hp0 hp
    exact h.unchanged hend.2 p (Nat.pos_of_ne_zero hp0) (hend.1 ▸ hp)

end Passing

theorem Run.passing (hs : s.Rooted) (hpos : 0 < s.size) (h : s.Run σ) : s.Passing σ := by
  induction h with
  | refl => exact passing_first hpos
  | tail _ hτ ih =>
      rename_i σ τ _
      rcases ih.advance hs with ⟨_, hnone⟩ | ⟨υ, hstep, hpassing, _⟩
      · exact absurd hτ (hnone τ)
      · cases (hstep τ).mp hτ
        exact hpassing

end Skeleton

/-- In every graph the passes come to an end, without any bound on them.  At every moment the
parents are sound, each climb starts at placed positions and ends at one that is not greater
than either, and a parent that changes gets smaller; so only finitely many passes change the
tree.  In the end all positions are placed, and the tree is that of the analysis. -/
theorem FlowGraph.passes_end {n : Nat} (g : FlowGraph n) :
    let s := g.skeleton g.order
    (forall σ, s.Run σ -> s.Sound σ) ∧
    Acc (fun τ σ => s.Step σ τ) s.firstPass ∧
    (exists σ, s.Run σ ∧ σ.Halted s) ∧
    forall σ, s.Run σ -> σ.Halted s ->
      (forall p, p < s.size -> σ.tree.Placed p) ∧ σ.tree = g.analyze.tree := by
  intro s
  have hs : s.Rooted := g.rooted_order
  have hpos : 0 < s.size := g.lt_size_of_order g.order_zero
  have hfirst := Skeleton.passing_first hpos
  refine ⟨fun σ hσ => (hσ.passing hs hpos).sound hs, hfirst.acc hs, hfirst.exists_halted hs,
    fun σ hσ hend => ?_⟩
  have hsettled := (hσ.passing hs hpos).settled hend
  exact ⟨fun p hp => hsettled.placed hp, g.settled_tree.eq hs hsettled⟩

end LoopNest
