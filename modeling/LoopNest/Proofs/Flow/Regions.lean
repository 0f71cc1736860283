import LoopNest.Proofs.Flow.NaturalLoops
import Mathlib.Data.List.Permutation

/-!
# Regions and cycles

Loops are entered at their headers only, and walks around them are closed walks with a governing
block.
-/

namespace LoopNest
namespace FlowGraph

/-!
## Loops as regions

A loop is a region with a single entry: its header dominates it, and an edge that leads into
it from outside leads to the header.  Inside the region control can go from the header to
every block and from every block back to the header.
-/

variable {n : Nat} (g : FlowGraph n)

/-- The blocks `inside` are entered at `h` only, and control can go round in them through
`h`. -/
structure Region (h : Fin n) (inside : List (Fin n)) : Prop where
  header_mem : h ∈ inside
  dominates : forall b, b ∈ inside -> g.Dominates h b
  entry : forall c d, g.Reachable c -> c ∉ inside -> d ∈ g.succs c -> d ∈ inside -> d = h
  to_header : forall b, b ∈ inside -> exists bs, g.Walk b bs h ∧ bs ⊆ inside
  from_header : forall b, b ∈ inside -> exists bs, g.Walk h bs b ∧ bs ⊆ inside
  back : exists t, t ∈ inside ∧ h ∈ g.succs t

variable {g} {a b c h : Fin n} {bs : List (Fin n)} {i : LoopId} {l : Loop (Fin n)}

/-!
### Walks and dominators
-/

theorem Dominates.refl (hb : g.Reachable b) : g.Dominates b b :=
  ⟨hb, fun _ hwalk => hwalk.last_mem⟩

theorem Dominates.of_walk (hdom : g.Dominates h c) (hb : g.Reachable b)
    (hwalk : g.Walk b bs c) (hbs : h ∉ bs) : g.Dominates h b := by
  refine ⟨hb, fun as hentry => ?_⟩
  rcases List.mem_append.mp (hdom.2 _ (hentry.join hwalk)) with hmem | hmem
  · exact hmem
  · exact absurd (List.mem_of_mem_tail hmem) hbs

/-- A walk through `h` that ends elsewhere leaves `h` once for good. -/
theorem Walk.leave (hwalk : g.Walk a bs b) (hbs : h ∈ bs) (hne : b ≠ h) :
    exists c cs, c ∈ g.succs h ∧ g.Walk c cs b ∧ h ∉ cs := by
  induction hwalk with
  | stay a => exact absurd (List.mem_singleton.mp hbs).symm hne
  | step hedge hwalk ih =>
      rename_i a c b cs
      by_cases hcs : h ∈ cs
      · exact ih hcs hne
      · rcases List.mem_cons.mp hbs with rfl | hmem
        · exact ⟨c, cs, hedge, hwalk, hcs⟩
        · exact absurd hmem hcs

theorem ReturnsTo.of_walk (hreturns : g.ReturnsTo h c) (hwalk : g.Walk b bs c) (hbs : h ∉ bs) :
    g.ReturnsTo h b := by
  rcases hreturns with ⟨t, cs, ht, htail, hcs⟩
  refine ⟨t, bs ++ cs.tail, ht, hwalk.join htail, ?_⟩
  intro hmem
  rcases List.mem_append.mp hmem with hmem | hmem
  · exact hbs hmem
  · exact hcs (List.mem_of_mem_tail hmem)

/-!
### Loops are regions
-/

section

variable (hl : g.forest.get? i = some l)
include hl

theorem header_mem_blocks : l.header ∈ l.blocks := by
  rcases exists_tail hl with ⟨t, ht⟩
  exact (mem_blocks_iff hl).mpr ⟨ht.reachable, Or.inl rfl⟩

theorem header_dominates_blocks (hb : b ∈ l.blocks) : g.Dominates l.header b := by
  rcases (mem_blocks_iff hl).mp hb with ⟨hreach, rfl | hreturns⟩
  · exact Dominates.refl hreach
  · rcases hreturns with ⟨t, bs, ht, hwalk, hbs⟩
    exact ht.2.2.of_walk hreach hwalk hbs

/-- A walk that avoids the header and ends in the loop stays in it. -/
theorem walk_subset_blocks (hb : g.Reachable b) (hwalk : g.Walk b bs c)
    (hc : g.ReturnsTo l.header c) (hbs : l.header ∉ bs) : bs ⊆ l.blocks := by
  intro d hd
  rcases hwalk.split hd with ⟨before, after, rfl, hleft, hright⟩
  have hafter : l.header ∉ d :: after := fun hmem => hbs (List.mem_append_right _ hmem)
  exact (mem_blocks_iff hl).mpr ⟨hb.walk hleft, Or.inr (hc.of_walk hright hafter)⟩

theorem tail_mem_blocks {t : Fin n} (ht : g.Tail l.header t) : t ∈ l.blocks := by
  by_cases heq : t = l.header
  · rw [heq]
    exact header_mem_blocks hl
  · refine (mem_blocks_iff hl).mpr ⟨ht.1, Or.inr ⟨t, [t], ht, Walk.stay t, ?_⟩⟩
    exact fun hmem => heq (List.mem_singleton.mp hmem).symm

theorem walk_to_header (hb : b ∈ l.blocks) :
    exists bs, g.Walk b bs l.header ∧ bs ⊆ l.blocks := by
  rcases (mem_blocks_iff hl).mp hb with ⟨hreach, rfl | hreturns⟩
  · exact ⟨[l.header], Walk.stay _, List.cons_subset.mpr ⟨hb, List.nil_subset _⟩⟩
  · rcases hreturns with ⟨t, bs, ht, hwalk, hbs⟩
    have ht' : g.ReturnsTo l.header t := by
      have hend : l.header ∉ [t] := by
        intro hmem
        rw [List.mem_singleton.mp hmem] at hbs
        exact hbs hwalk.last_mem
      exact ⟨t, [t], ht, Walk.stay t, hend⟩
    refine ⟨bs ++ [l.header], hwalk.snoc ht.2.1, List.append_subset.mpr ⟨?_, ?_⟩⟩
    · exact walk_subset_blocks hl hreach hwalk ht' hbs
    · exact List.cons_subset.mpr ⟨header_mem_blocks hl, List.nil_subset _⟩

/-- On a way from the entry, what follows the last visit of the header is in the loop. -/
theorem walk_from_header (hb : b ∈ l.blocks) :
    exists bs, g.Walk l.header bs b ∧ bs ⊆ l.blocks := by
  have hheader := header_mem_blocks hl
  by_cases hne : b = l.header
  · subst hne
    exact ⟨[l.header], Walk.stay _, List.cons_subset.mpr ⟨hb, List.nil_subset _⟩⟩
  · rcases (header_dominates_blocks hl hb) with ⟨⟨as, hentry⟩, hall⟩
    rcases hentry.leave (hall as hentry) hne with ⟨c, cs, hedge, hwalk, hcs⟩
    have hreturns := ((mem_blocks_iff hl).mp hb).2.resolve_left hne
    have hc : g.Reachable c := ((mem_blocks_iff hl).mp hheader).1.succ hedge
    refine ⟨l.header :: cs, Walk.step hedge hwalk, List.cons_subset.mpr ⟨hheader, ?_⟩⟩
    exact walk_subset_blocks hl hc hwalk hreturns hcs

/-- Whatever leads to a block of the loop other than the header is in the loop. -/
theorem entered_at_header (hc : g.Reachable c) (hout : c ∉ l.blocks) (hedge : b ∈ g.succs c)
    (hb : b ∈ l.blocks) : b = l.header := by
  by_contra hne
  have hreturns := ((mem_blocks_iff hl).mp hb).2.resolve_left hne
  have hheader : l.header ∉ [c, b] := by
    intro hmem
    rcases List.mem_cons.mp hmem with heq | hmem
    · exact hout (heq ▸ header_mem_blocks hl)
    · exact hne (List.mem_singleton.mp hmem).symm
  have hwalk : g.Walk c [c, b] b := Walk.step hedge (Walk.stay b)
  exact hout (walk_subset_blocks hl hc hwalk hreturns hheader hwalk.head_mem)

/-- Every loop of the forest is a region with a single entry, its header. -/
theorem forest_regions : g.Region l.header l.blocks where
  header_mem := header_mem_blocks hl
  dominates := fun _ hb => header_dominates_blocks hl hb
  entry := fun _ _ hc hout hedge hd => entered_at_header hl hc hout hedge hd
  to_header := fun _ hb => walk_to_header hl hb
  from_header := fun _ hb => walk_from_header hl hb
  back := by
    rcases exists_tail hl with ⟨t, ht⟩
    exact ⟨t, tail_mem_blocks hl ht, ht.2.1⟩

end

/-- Blocks 1 and 2 lead to each other and are both entered from block 0, so neither of them
dominates the other; they lie in the loop of block 0 only. -/
def crossGraph : FlowGraph 4 where
  entry := 0
  succs := fun b => if b = 0 then [1, 2] else if b = 1 then [2, 3] else if b = 2 then [1] else [0]

theorem crossGraph_region :
    crossGraph.forest.get? 0 = some ⟨0, [0, 1, 3, 2], [0, 1, 3, 2], [], none, 1⟩ ∧
      crossGraph.Region 0 [0, 1, 3, 2] := by
  have hloop : crossGraph.forest.get? 0 = some ⟨0, [0, 1, 3, 2], [0, 1, 3, 2], [], none, 1⟩ := by
    cbv
  exact ⟨hloop, forest_regions hloop⟩

end FlowGraph
end LoopNest

namespace LoopNest
namespace FlowGraph

/-!
## Loops and cycles

A block is in a loop exactly when control can go round from it through a block that dominates
the whole way.  Where every cycle has such a block, being in a loop and lying on a cycle are
the same; a cycle that can be entered at several places may lie in no loop.
-/

variable {n : Nat} (g : FlowGraph n)

/-- The walk `bs` leads from `a` back to `a` over at least one edge. -/
def ClosedWalk (a : Fin n) (bs : List (Fin n)) : Prop :=
  g.Walk a bs a ∧ 1 < bs.length

def Cycle (a : Fin n) (bs : List (Fin n)) : Prop :=
  g.ClosedWalk a bs ∧ bs.tail.Nodup

/-- The block `h` is one of the blocks `bs` and dominates all of them. -/
def Governs (h : Fin n) (bs : List (Fin n)) : Prop :=
  h ∈ bs ∧ forall b, b ∈ bs -> g.Dominates h b

variable {g} {a b c h : Fin n} {bs cs : List (Fin n)} {i : LoopId} {l : Loop (Fin n)}

/-!
### Turning and shortening closed walks
-/

theorem ClosedWalk.of_edge (hedge : b ∈ g.succs a) (hwalk : g.Walk b bs a) :
    g.ClosedWalk a (a :: bs) := by
  refine ⟨Walk.step hedge hwalk, ?_⟩
  have hpos := List.length_pos_of_mem hwalk.head_mem
  simp only [List.length_cons]
  lia

theorem ClosedWalk.rotate (h : g.ClosedWalk a bs) (hb : b ∈ bs) :
    exists cs, g.ClosedWalk b cs ∧ forall c, c ∈ bs <-> c ∈ cs := by
  rcases h with ⟨hwalk, hlen⟩
  rcases hwalk.split hb with ⟨before, after, rfl, hleft, hright⟩
  refine ⟨_, ⟨hright.join hleft, ?_⟩, fun c => ?_⟩
  · simp only [List.length_append, List.length_tail, List.length_cons, List.length_nil] at hlen ⊢
    lia
  · -- the start `a` is lost at the front of the first part and stays at the end of the second
    have ha : a ∈ b :: after := hright.last_mem
    cases before with
    | nil => simp
    | cons d before =>
        have hd : d = a := Option.some.inj hleft.head?_eq
        subst hd
        simp only [List.cons_append, List.tail_cons, List.mem_append, List.mem_cons,
          List.not_mem_nil, or_false] at ha ⊢
        grind

/-- What a walk visits twice can be cut out of it. -/
theorem Walk.simple (hwalk : g.Walk a bs b) :
    exists cs, g.Walk a cs b ∧ cs.Nodup ∧ cs ⊆ bs := by
  induction hwalk with
  | stay a => exact ⟨[a], Walk.stay a, List.nodup_singleton a, List.Subset.refl _⟩
  | step hedge hrest ih =>
      rename_i a c b bs
      rcases ih with ⟨cs, hwalk, hnodup, hsub⟩
      by_cases ha : a ∈ cs
      · rcases hwalk.split ha with ⟨before, after, rfl, _, hright⟩
        refine ⟨a :: after, hright, hnodup.sublist (List.sublist_append_right _ _), ?_⟩
        exact fun d hd => List.mem_cons_of_mem a (hsub (List.mem_append_right before hd))
      · exact ⟨a :: cs, Walk.step hedge hwalk, List.nodup_cons.mpr ⟨ha, hnodup⟩,
          List.cons_subset_cons a hsub⟩

theorem ClosedWalk.exists_cycle (h : g.ClosedWalk a bs) (hb : b ∈ bs) :
    exists cs, g.Cycle b cs := by
  rcases h.rotate hb with ⟨ds, ⟨hwalk, hlen⟩, _⟩
  cases hwalk with
  | stay => simp at hlen
  | step hedge htail =>
      rcases htail.simple with ⟨cs, hcs, hnodup, _⟩
      exact ⟨b :: cs, ClosedWalk.of_edge hedge hcs, hnodup⟩

/-!
### Governed closed walks and loops
-/

/-- On a closed walk that `h` governs control returns to `h` over a tail of `h`. -/
theorem returnsTo_of_governed (hwalk : g.Walk b bs h) (hne : b ≠ h)
    (hdom : forall c, c ∈ bs -> g.Dominates h c) : g.ReturnsTo h b := by
  induction hwalk with
  | stay => exact absurd rfl hne
  | step hedge hwalk ih =>
      rename_i b c h cs
      have hb := hdom b List.mem_cons_self
      by_cases hc : c = h
      · subst hc
        refine ⟨b, [b], ⟨hb.1, hedge, hb⟩, Walk.stay b, ?_⟩
        exact fun hmem => hne (List.mem_singleton.mp hmem).symm
      · have hreturns := ih hc fun d hd => hdom d (List.mem_cons_of_mem _ hd)
        rcases hreturns with ⟨t, ds, ht, htail, hds⟩
        refine ⟨t, b :: ds, ht, Walk.step hedge htail, ?_⟩
        exact List.not_mem_cons_of_ne_of_not_mem (Ne.symm hne) hds

theorem Governs.exists_tail (hgov : g.Governs h bs) (hclosed : g.ClosedWalk h bs) :
    exists t, g.Tail h t := by
  rcases hclosed with ⟨hwalk, hlen⟩
  cases hwalk with
  | stay => simp at hlen
  | step hedge hwalk =>
      rename_i c cs
      by_cases hc : c = h
      · subst hc
        exact ⟨c, (hgov.2 c hgov.1).1, hedge, hgov.2 c hgov.1⟩
      · have hreturns := returnsTo_of_governed hwalk hc fun d hd =>
          hgov.2 d (List.mem_cons_of_mem _ hd)
        rcases hreturns with ⟨t, _, ht, _⟩
        exact ⟨t, ht⟩

/-- The blocks of a closed walk that `h` governs are in the loop of `h`. -/
theorem Governs.exists_loop (hgov : g.Governs h bs) (hclosed : g.ClosedWalk a bs) :
    exists i l, g.forest.get? i = some l ∧ l.header = h ∧ bs ⊆ l.blocks := by
  rcases hclosed.rotate hgov.1 with ⟨cs, hclosed', hsame⟩
  have hgov' : g.Governs h cs :=
    ⟨(hsame h).mp hgov.1, fun b hb => hgov.2 b ((hsame b).mpr hb)⟩
  rcases hgov'.exists_tail hclosed' with ⟨t, ht⟩
  rcases FlowGraph.exists_loop ht with ⟨i, l, hl, rfl⟩
  refine ⟨i, l, hl, rfl, fun b hb => (mem_blocks_iff hl).mpr ⟨(hgov.2 b hb).1, ?_⟩⟩
  by_cases hne : b = l.header
  · exact Or.inl hne
  · rcases hclosed'.1.split ((hsame b).mp hb) with ⟨before, after, rfl, _, hright⟩
    refine Or.inr (returnsTo_of_governed hright hne fun c hc => ?_)
    exact hgov'.2 c (List.mem_append_right before hc)

/-- Every block of a loop lies on a closed walk that the header governs: from the header to
the block, back to the header, and round over a tail. -/
theorem exists_governed (hl : g.forest.get? i = some l) (hb : b ∈ l.blocks) :
    exists bs, g.ClosedWalk l.header bs ∧ b ∈ bs ∧ g.Governs l.header bs := by
  rcases walk_from_header hl hb with ⟨bs, hout, hbs⟩
  rcases walk_to_header hl hb with ⟨cs, hback, hcs⟩
  rcases exists_tail hl with ⟨t, ht⟩
  rcases walk_from_header hl (tail_mem_blocks hl ht) with ⟨ds, htail, hds⟩
  have hround := (hout.join hback).join htail
  have hinside : bs ++ cs.tail ++ ds.tail ++ [l.header] ⊆ l.blocks := by
    have hcs' := List.Subset.trans (List.tail_subset cs) hcs
    have hds' := List.Subset.trans (List.tail_subset ds) hds
    intro c hc
    simp only [List.mem_append, List.mem_singleton] at hc
    rcases hc with ((hc | hc) | hc) | rfl
    · exact hbs hc
    · exact hcs' hc
    · exact hds' hc
    · exact header_mem_blocks hl
  have hdom := fun c hc => header_dominates_blocks hl (hinside (a := c) hc)
  refine ⟨_, ⟨hround.snoc ht.2.1, ?_⟩, ?_, ?_, hdom⟩
  · have hpos := List.length_pos_of_mem hround.head_mem
    rw [List.length_append, List.length_singleton]
    lia
  · simp only [List.mem_append]
    exact Or.inl (Or.inl (Or.inl hout.last_mem))
  · exact List.mem_append_right _ List.mem_cons_self

variable (g) in
theorem isSome_loopFor? : (g.forest.loopFor? b).isSome = true <-> g.forest.Covers b := by
  have hpartitioned : g.forest.Partitioned :=
    LoopForest.Partitioned.map g.separates_blockAt g.laminar_loops.partitioned_forest
  rw [← Option.not_isNone, Bool.not_eq_true', ← Bool.not_eq_true, Option.isNone_iff_eq_none,
    hpartitioned.loopFor_eq_none b, not_not]

variable (g)

/-- A block is in a loop exactly when it lies on a closed walk with a governing block, and
the loop of that block holds the whole walk.  If every reachable cycle is governed, a
reachable block is in a loop exactly when it lies on a cycle. -/
theorem loops_are_governed_walks :
    (forall b, (g.forest.loopFor? b).isSome = true <->
      exists a bs h, g.ClosedWalk a bs ∧ b ∈ bs ∧ g.Governs h bs) ∧
    (forall a bs h, g.ClosedWalk a bs -> g.Governs h bs ->
      exists i l, g.forest.get? i = some l ∧ l.header = h ∧ bs ⊆ l.blocks) ∧
    ((forall a bs, g.Cycle a bs -> g.Reachable a -> exists h, g.Governs h bs) ->
      forall b, g.Reachable b ->
        ((g.forest.loopFor? b).isSome = true <-> exists a bs, g.Cycle a bs ∧ b ∈ bs)) := by
  have hgoverned : forall b, (g.forest.loopFor? b).isSome = true <->
      exists a bs h, g.ClosedWalk a bs ∧ b ∈ bs ∧ g.Governs h bs := by
    intro b
    rw [isSome_loopFor?]
    constructor
    · intro hcase
      rcases hcase with ⟨i, l, hl, hb⟩
      rcases exists_governed hl hb with ⟨bs, hclosed, hmem, hgov⟩
      exact ⟨l.header, bs, l.header, hclosed, hmem, hgov⟩
    · intro hcase
      rcases hcase with ⟨a, bs, h, hclosed, hb, hgov⟩
      rcases hgov.exists_loop hclosed with ⟨i, l, hl, _, hsub⟩
      exact ⟨i, l, hl, hsub hb⟩
  refine ⟨hgoverned, fun a bs h hclosed hgov => hgov.exists_loop hclosed, ?_⟩
  intro hall b hreach
  rw [hgoverned b]
  constructor
  · intro hcase
    rcases hcase with ⟨a, bs, h, hclosed, hb, _⟩
    rcases hclosed.exists_cycle hb with ⟨cs, hcycle⟩
    exact ⟨b, cs, hcycle, hcycle.1.1.head_mem⟩
  · intro hcase
    rcases hcase with ⟨a, bs, hcycle, hb⟩
    -- what the cycle passes behind `b` is reachable, and so is its start
    rcases hcycle.1.1.split hb with ⟨_, _, _, _, hright⟩
    rcases hall a bs hcycle (hreach.walk hright) with ⟨h, hgov⟩
    exact ⟨a, bs, h, hcycle.1, hb, hgov⟩

end FlowGraph
end LoopNest
