import LoopNest.Flow.Dominators
import LoopNest.Proofs.Flow.Laminar
import LoopNest.Proofs.Flow.Settling

/-!
# Natural loops

The body of a natural loop, and what the loops of a graph have in common.
-/

namespace LoopNest
namespace Skeleton

/-!
## Bodies of loops

The backwards walk that collects a body is compared with what a body is: the header and
every position from which control returns to a tail without passing the header.
-/

/-- From position `p` control returns to one of the tails without passing the header. -/
inductive Returns (s : Skeleton) (header : Nat) (tails : List Nat) : Nat -> Prop where
  | tail {p : Nat} : p ∈ tails -> p ≠ header -> Returns s header tails p
  | step {p q : Nat} : Returns s header tails p -> q ∈ s.predsOf p -> q ≠ header ->
      Returns s header tails q

variable {s : Skeleton} {t : DomTree} {header p q : Nat} {tails : List Nat}

theorem Returns.ne_header (h : s.Returns header tails p) : p ≠ header := by
  cases h with
  | tail _ hne => exact hne
  | step _ _ hne => exact hne

theorem Returns.lt_size (hs : s.Rooted) (htails : forall x, x ∈ tails -> x < s.size)
    (h : s.Returns header tails p) : p < s.size := by
  cases h with
  | tail hp _ => exact htails p hp
  | step _ hedge _ => exact hs.pred_lt _ p hedge

/-!
### The backwards walk
-/

theorem mem_entering {positions : List Nat} :
    q ∈ s.entering p positions <-> q ∈ positions ∧ q ∈ s.predsOf p := by
  simp [entering]

theorem mem_avoiding {positions : List Nat} :
    q ∈ s.avoiding p positions <-> q ∈ positions ∧ q ∉ s.predsOf p := by
  simp [avoiding]

/-- Every position outside stays outside or is found, and what is found lies in every set
that holds the work and, with a position, its predecessors. -/
theorem mem_drain_or {inside : Nat -> Prop} {work outside : List Nat}
    (hwork : forall x, x ∈ work -> inside x)
    (hstep : forall x y, inside x -> y ∈ s.predsOf x -> y ∈ outside -> inside y) :
    forall x, x ∈ outside -> x ∈ s.drain work outside ∨ inside x := by
  induction work, outside using drain.induct s with
  | case1 outside =>
      intro x hx
      rw [drain]
      exact Or.inl hx
  | case2 p work outside ih =>
      have hp : inside p := hwork p List.mem_cons_self
      intro x hx
      rw [drain]
      by_cases hedge : x ∈ s.predsOf p
      · exact Or.inr (hstep p x hp hedge hx)
      · refine ih ?_ ?_ x (mem_avoiding.mpr ⟨hx, hedge⟩)
        · intro y hy
          rcases List.mem_append.mp hy with hy | hy
          · rcases mem_entering.mp hy with ⟨hout, hpred⟩
            exact hstep p y hp hpred hout
          · exact hwork y (List.mem_cons_of_mem _ hy)
        · intro y z hy hz hout
          exact hstep y z hy hz (mem_avoiding.mp hout).1

/-- What stays outside precedes neither the work nor anything that is found. -/
theorem drain_closed {work outside : List Nat} {x : Nat} (hx : x ∈ s.drain work outside) :
    x ∈ outside ∧ (forall y, y ∈ work -> x ∉ s.predsOf y) ∧
      forall y, y ∈ outside -> y ∉ s.drain work outside -> x ∉ s.predsOf y := by
  induction work, outside using drain.induct s with
  | case1 outside =>
      rw [drain] at hx ⊢
      refine ⟨hx, fun y hy => ?_, fun y hy hout => absurd hy hout⟩
      cases hy
  | case2 p work outside ih =>
      rw [drain] at hx ⊢
      rcases ih hx with ⟨hout, hwork, hfound⟩
      rcases mem_avoiding.mp hout with ⟨hx, hxp⟩
      refine ⟨hx, fun y hy => ?_, fun y hy hdrained => ?_⟩
      · rcases List.mem_cons.mp hy with rfl | hy
        · exact hxp
        · exact hwork y (List.mem_append_right _ hy)
      · by_cases hedge : y ∈ s.predsOf p
        · exact hwork y (List.mem_append_left _ (mem_entering.mpr ⟨hy, hedge⟩))
        · exact hfound y (mem_avoiding.mpr ⟨hy, hedge⟩) hdrained

/-- The walk from the tails finds what returns to a tail: a position that stays outside
does not return, and one that is found does. -/
theorem mem_drain_tails (hs : s.Rooted) (htails : forall x, x ∈ tails -> x < s.size)
    {inner outside : List Nat}
    (hinner : forall x, x ∈ inner <-> x ∈ tails ∧ x ≠ header)
    (houtside : forall x, x ∈ outside <-> x < s.size ∧ x ≠ header ∧ x ∉ inner) :
    p ∈ s.drain inner outside <->
      p < s.size ∧ p ≠ header ∧ ¬ s.Returns header tails p := by
  constructor
  · intro hdrain
    have hout := (houtside p).mp (drain_closed hdrain).1
    refine ⟨hout.1, hout.2.1, fun hreturns => ?_⟩
    clear hout
    induction hreturns with
    | tail htail hne =>
        have hout := (houtside _).mp (drain_closed hdrain).1
        exact hout.2.2 ((hinner _).mpr ⟨htail, hne⟩)
    | step hreturns hedge _ ih =>
        rename_i x y _
        rcases drain_closed hdrain with ⟨_, hwork, hfound⟩
        by_cases htail : x ∈ inner
        · exact hwork x htail hedge
        · have hx := (houtside x).mpr ⟨hreturns.lt_size hs htails, hreturns.ne_header, htail⟩
          exact hfound x hx ih hedge
  · intro hcase
    rcases hcase with ⟨hp, hheader, hreturns⟩
    have htail : p ∉ inner := by
      intro htail
      exact hreturns (Returns.tail ((hinner p).mp htail).1 hheader)
    have hor : p ∈ s.drain inner outside ∨ s.Returns header tails p := by
      apply mem_drain_or _ _ p ((houtside p).mpr ⟨hp, hheader, htail⟩)
      · intro x hx
        exact Returns.tail ((hinner x).mp hx).1 ((hinner x).mp hx).2
      · intro x y hx hy hout
        exact Returns.step hx hy ((houtside y).mp hout).2.1
    exact hor.resolve_right hreturns

theorem mem_body (hs : s.Rooted) (htails : forall x, x ∈ tails -> x < s.size) :
    p ∈ s.body header tails <->
      p < s.size ∧ (p = header ∨ s.Returns header tails p) := by
  let inner := tails.filter (· != header)
  let outside := (List.range s.size).filter fun x => x != header && !inner.contains x
  have hbody : p ∈ s.body header tails <-> p < s.size ∧ p ∉ s.drain inner outside := by
    simp [body, inner, outside]
  have hdrain : p ∈ s.drain inner outside <->
      p < s.size ∧ p ≠ header ∧ ¬ s.Returns header tails p := by
    apply mem_drain_tails hs htails
    · simp [inner]
    · simp [outside]
  rw [hbody, hdrain]
  tauto

theorem sorted_body (s : Skeleton) (header : Nat) (tails : List Nat) :
    (s.body header tails).Pairwise (· < ·) :=
  List.pairwise_lt_range.filter _

end Skeleton
end LoopNest

namespace LoopNest
namespace Skeleton

/-!
## Natural loops of a skeleton

The header of a loop dominates its body.  So of two loops that share a position one header
dominates the other, and control can return from the inner loop to a tail of the outer one
without passing the outer header: the inner body lies in the outer one.
-/

variable {s : Skeleton} {t : DomTree} {k l : NaturalLoop} {p q x : Nat}

/-!
### Headers and tails
-/

theorem mem_tails (hs : s.Rooted) (h : s.Settled t) :
    x ∈ s.tails t p <-> x ∈ s.predsOf p ∧ s.Dominates p x := by
  rw [tails, List.mem_filter]
  exact and_congr_right fun hx => h.above_iff hs (hs.pred_lt p x hx)

theorem loopAt?_eq_some :
    s.loopAt? t p = some l <->
      p = l.header ∧ s.tails t l.header ≠ [] ∧
        l.body = s.body l.header (s.tails t l.header) := by
  cases l with
  | mk header body =>
      unfold loopAt?
      cases htails : s.tails t p with
      | nil =>
          constructor
          · intro h
            cases h
          · intro hcase
            rcases hcase with ⟨rfl, hne, _⟩
            exact absurd htails hne
      | cons x xs =>
          constructor
          · intro h
            cases h
            rw [htails]
            exact ⟨rfl, List.cons_ne_nil _ _, rfl⟩
          · intro hcase
            rcases hcase with ⟨rfl, _, hbody⟩
            rw [htails] at hbody
            simp only at hbody ⊢
            rw [hbody]

theorem mem_naturalLoops :
    l ∈ s.naturalLoops t <-> l.header < s.size ∧ s.tails t l.header ≠ [] ∧
      l.body = s.body l.header (s.tails t l.header) := by
  simp only [naturalLoops, List.mem_filterMap, List.mem_range, loopAt?_eq_some]
  constructor
  · intro hcase
    rcases hcase with ⟨p, hp, rfl, hloop⟩
    exact ⟨hp, hloop⟩
  · intro hcase
    rcases hcase with ⟨hp, hloop⟩
    exact ⟨l.header, hp, rfl, hloop⟩

theorem exists_naturalLoop (hp : p < s.size) (htails : s.tails t p ≠ []) :
    exists l, l ∈ s.naturalLoops t ∧ l.header = p :=
  ⟨⟨p, s.body p (s.tails t p)⟩, mem_naturalLoops.mpr ⟨hp, htails, rfl⟩, rfl⟩

theorem sorted_naturalLoops (s : Skeleton) (t : DomTree) :
    (s.naturalLoops t).Pairwise fun k l => k.header < l.header := by
  apply List.pairwise_filterMap.mpr
  apply List.pairwise_lt_range.imp
  intro p q hpq k hk l hl
  cases (loopAt?_eq_some.mp hk).1
  cases (loopAt?_eq_some.mp hl).1
  exact hpq

section

variable (hs : s.Rooted) (h : s.Settled t) (hl : l ∈ s.naturalLoops t)
include hs h hl

/-- A body holds its header and all positions from which control returns to a tail. -/
theorem mem_loop_body :
    p ∈ l.body <->
      p < s.size ∧ (p = l.header ∨ s.Returns l.header (s.tails t l.header) p) := by
  rw [(mem_naturalLoops.mp hl).2.2]
  apply mem_body hs
  intro x hx
  exact hs.pred_lt _ x ((mem_tails hs h).mp hx).1

theorem header_mem_body : l.header ∈ l.body :=
  (mem_loop_body hs h hl).mpr ⟨(mem_naturalLoops.mp hl).1, Or.inl rfl⟩

omit hl in
/-- The header dominates whatever returns to it. -/
theorem Returns.dominated (hp : s.Returns q (s.tails t q) p) : s.Dominates q p := by
  induction hp with
  | tail htail _ => exact ((mem_tails hs h).mp htail).2
  | step hreturns hedge _ ih => exact ih.pred hreturns.ne_header.symm hedge

theorem header_dominates_body (hp : p ∈ l.body) : s.Dominates l.header p := by
  rcases ((mem_loop_body hs h hl).mp hp).2 with rfl | hreturns
  · exact Dominates.refl s l.header
  · exact hreturns.dominated hs h

end

/-!
### Nested loops
-/

/-- From a position that a block behind the header dominates, control came through this
block: if it returns, so does the block. -/
theorem Returns.of_dominated {header : Nat} {tails : List Nat} (hs : s.Rooted)
    (hx : x < s.size) (hlt : header < q) (hq : s.Dominates q x)
    (h : s.Returns header tails x) : s.Returns header tails q := by
  induction x using Nat.strong_induction_on with
  | h x ih =>
      by_cases hqx : q = x
      · subst hqx
        exact h
      · have hle := hq.le hs hx
        rcases hs.earlier x (by lia) hx with ⟨y, hy, hyx⟩
        have hqy := hq.pred hqx hy
        have hle' := hqy.le hs (by lia)
        exact ih y hyx (by lia) hqy (Returns.step h hy (by lia))

theorem body_subset_of_shared (hs : s.Rooted) (h : s.Settled t) (hk : k ∈ s.naturalLoops t)
    (hl : l ∈ s.naturalLoops t) (hlt : k.header < l.header) (hpk : p ∈ k.body)
    (hpl : p ∈ l.body) : l.body ⊆ k.body := by
  have hbody := fun q => mem_loop_body (p := q) hs h hk
  have hle : forall x, x ∈ l.body -> l.header ≤ x := fun x hx =>
    (header_dominates_body hs h hl hx).le hs ((mem_loop_body hs h hl).mp hx).1
  -- control returns from the inner header to a tail of the outer loop
  have hheader : s.Returns k.header (s.tails t k.header) l.header := by
    rcases (hbody p).mp hpk with ⟨hp, hcase⟩
    have hne : p ≠ k.header := by
      have := hle p hpl
      lia
    exact (hcase.resolve_left hne).of_dominated hs hp hlt (header_dominates_body hs h hl hpl)
  intro q hq
  rcases (mem_loop_body hs h hl).mp hq with ⟨hqs, hcase⟩
  refine (hbody q).mpr ⟨hqs, Or.inr ?_⟩
  rcases hcase with rfl | hreturns
  · exact hheader
  · clear hq hqs
    induction hreturns with
    | tail htail _ =>
        rcases (mem_tails hs h).mp htail with ⟨hedge, hdom⟩
        have := hdom.le hs (hs.pred_lt _ _ hedge)
        exact Returns.step hheader hedge (by lia)
    | step hreturns hedge hne ih =>
        have hdom := (Returns.step hreturns hedge hne).dominated hs h
        have := hdom.le hs (hs.pred_lt _ _ hedge)
        exact Returns.step ih hedge (by lia)

/-- The natural loops of a settled tree are nested or disjoint. -/
theorem laminar_naturalLoops (hs : s.Rooted) (h : s.Settled t) :
    NaturalLoop.Laminar s.size (s.naturalLoops t) where
  sorted := s.sorted_naturalLoops t
  sorted_body := by
    intro l hl
    rw [(mem_naturalLoops.mp hl).2.2]
    exact s.sorted_body _ _
  lt_size := fun l hl p hp => ((mem_loop_body hs h hl).mp hp).1
  header_mem := fun l hl => header_mem_body hs h hl
  header_le := fun l hl p hp =>
    (header_dominates_body hs h hl hp).le hs ((mem_loop_body hs h hl).mp hp).1
  nested := fun k l hk hl hlt p hpk hpl => body_subset_of_shared hs h hk hl hlt hpk hpl

end Skeleton
end LoopNest
