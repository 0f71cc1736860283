import LoopNest.Forest
import Mathlib.Data.List.Nodup

/-!
# Nested forests

In a nested forest two loops are disjoint or one strictly contains the other.  The parent
of a loop is the smallest loop around it, and depths and lists of loops follow the parents.
-/

namespace LoopNest

variable {beta gamma : Type}

/-- The blocks of `k` are among those of `l`, which has more. -/
def Loop.Inside (k l : Loop beta) : Prop :=
  k.blocks ⊆ l.blocks ∧ ¬ l.blocks ⊆ k.blocks

namespace LoopForest

def Encloses (forest : LoopForest beta) (j : LoopId) (l : Loop beta) : Prop :=
  exists k, forest.get? j = some k ∧ l.Inside k ∧
    forall j' k', forest.get? j' = some k' -> l.Inside k' -> j' ≠ j ->
      k.blocks.length < k'.blocks.length

def holders [DecidableEq beta] (forest : LoopForest beta) (b : beta) : Nat :=
  forest.loops.countP fun l => decide (b ∈ l.blocks)

/-- The loops of a forest nest, and what the forest says about loops follows the nesting. -/
structure Nested [DecidableEq beta] (forest : LoopForest beta) : Prop where
  nodup : forall i l, forest.get? i = some l -> l.blocks.Nodup
  header_mem : forall i l, forest.get? i = some l -> l.header ∈ l.blocks
  laminar : forall i j k l, i ≠ j -> forest.get? i = some k -> forest.get? j = some l ->
    k.blocks.Disjoint l.blocks ∨ k.Inside l ∨ l.Inside k
  length_ne : forall i j k l, i ≠ j -> forest.get? i = some k -> forest.get? j = some l ->
    forall b, b ∈ k.blocks -> b ∈ l.blocks -> k.blocks.length ≠ l.blocks.length
  parent_eq_some : forall i l, forest.get? i = some l ->
    forall j, l.parent = some j <-> forest.Encloses j l
  parent_eq_none : forall i l, forest.get? i = some l ->
    (l.parent = none <-> forall j k, forest.get? j = some k -> ¬ l.Inside k)
  parent_lt : forall i l, forest.get? i = some l -> forall j, l.parent = some j -> j < i
  depth_top : forall i l, forest.get? i = some l -> l.parent = none -> l.depth = 1
  depth_sub : forall i j k l, forest.get? i = some l -> l.parent = some j ->
    forest.get? j = some k -> l.depth = k.depth + 1
  depth_eq : forall i l, forest.get? i = some l -> l.depth = forest.holders l.header
  sorted_subLoops : forall i l, forest.get? i = some l -> l.subLoops.Pairwise (· < ·)
  mem_subLoops : forall i l, forest.get? i = some l ->
    forall j, j ∈ l.subLoops <-> exists k, forest.get? j = some k ∧ k.parent = some i
  sorted_topLevel : forest.topLevel.Pairwise (· > ·)
  mem_topLevel : forall j,
    j ∈ forest.topLevel <-> exists k, forest.get? j = some k ∧ k.parent = none

/-- All loops list their blocks in one order, in which the header comes first. -/
structure Ordered (forest : LoopForest beta) : Prop where
  head : forall i l, forest.get? i = some l -> l.blocks.head? = some l.header
  sublist : forall i j k l, forest.get? i = some k -> forest.get? j = some l ->
    k.blocks ⊆ l.blocks -> k.blocks.Sublist l.blocks

/-!
## Renamed forests
-/

/-- A renaming keeps the blocks of loops apart. -/
def Separates (forest : LoopForest beta) (f : beta -> gamma) : Prop :=
  forall i j k l, forest.get? i = some k -> forest.get? j = some l ->
    forall a b, a ∈ k.blocks -> b ∈ l.blocks -> f a = f b -> a = b

variable {forest : LoopForest beta} {f : beta -> gamma} {i j : LoopId} {k l : Loop beta} {b : beta}

theorem get?_map (forest : LoopForest beta) (f : beta -> gamma) (i : LoopId) :
    (forest.map f).get? i = (forest.get? i).map (Loop.map f) :=
  List.getElem?_map

theorem get?_map_eq_some {l' : Loop gamma} :
    (forest.map f).get? i = some l' <-> exists l, forest.get? i = some l ∧ l.map f = l' := by
  rw [get?_map, Option.map_eq_some_iff]

theorem exists_parent_map {parent : Option LoopId} :
    (exists l', (forest.map f).get? i = some l' ∧ l'.parent = parent) <->
      exists l, forest.get? i = some l ∧ l.parent = parent := by
  constructor
  · intro hcase
    rcases hcase with ⟨l', hl', hparent⟩
    rcases get?_map_eq_some.mp hl' with ⟨l, hl, rfl⟩
    exact ⟨l, hl, hparent⟩
  · intro hcase
    rcases hcase with ⟨l, hl, hparent⟩
    exact ⟨l.map f, get?_map_eq_some.mpr ⟨l, hl, rfl⟩, hparent⟩

theorem Nested.eq_of_blocks [DecidableEq beta] (h : forest.Nested)
    (hk : forest.get? i = some k) (hl : forest.get? j = some l) (heq : k.blocks = l.blocks) :
    i = j := by
  by_contra hij
  have hheader := h.header_mem i k hk
  exact h.length_ne i j k l hij hk hl k.header hheader (heq ▸ hheader)
    (congrArg List.length heq)

theorem mem_loops : l ∈ forest.loops <-> exists i, forest.get? i = some l :=
  List.mem_iff_getElem?

section

variable (hf : forest.Separates f)
include hf

theorem Separates.mem_blocks_map (hk : forest.get? i = some k) (hl : forest.get? j = some l)
    (hb : b ∈ k.blocks) : f b ∈ (l.map f).blocks <-> b ∈ l.blocks := by
  constructor
  · intro hmem
    rcases List.mem_map.mp hmem with ⟨a, ha, hab⟩
    rw [← hf j i l k hl hk a b ha hb hab]
    exact ha
  · intro hmem
    exact List.mem_map_of_mem hmem

theorem Separates.subset_map (hk : forest.get? i = some k) (hl : forest.get? j = some l) :
    (k.map f).blocks ⊆ (l.map f).blocks <-> k.blocks ⊆ l.blocks := by
  constructor
  · intro hsub a ha
    exact (hf.mem_blocks_map hk hl ha).mp (hsub (List.mem_map_of_mem ha))
  · intro hsub
    exact List.map_subset f hsub

theorem Separates.inside_map (hk : forest.get? i = some k) (hl : forest.get? j = some l) :
    (k.map f).Inside (l.map f) <-> k.Inside l := by
  rw [Loop.Inside, Loop.Inside, hf.subset_map hk hl, hf.subset_map hl hk]

theorem Separates.disjoint_map (hk : forest.get? i = some k) (hl : forest.get? j = some l)
    (hdisjoint : k.blocks.Disjoint l.blocks) :
    (k.map f).blocks.Disjoint (l.map f).blocks := by
  intro c hck hcl
  rcases List.mem_map.mp hck with ⟨a, ha, rfl⟩
  exact hdisjoint ha ((hf.mem_blocks_map hk hl ha).mp hcl)

theorem Separates.holders_map [DecidableEq beta] [DecidableEq gamma]
    (hk : forest.get? i = some k) (hb : b ∈ k.blocks) :
    (forest.map f).holders (f b) = forest.holders b := by
  simp only [holders, map, List.countP_map]
  apply List.countP_congr
  intro l hl
  rcases mem_loops.mp hl with ⟨j, hj⟩
  simp only [Function.comp_apply, decide_eq_true_eq]
  exact hf.mem_blocks_map hk hj hb

theorem Separates.encloses_map (hl : forest.get? i = some l) :
    (forest.map f).Encloses j (l.map f) <-> forest.Encloses j l := by
  constructor
  · intro hcase
    rcases hcase with ⟨k', hk', hinside, hleast⟩
    rcases get?_map_eq_some.mp hk' with ⟨k, hk, rfl⟩
    refine ⟨k, hk, (hf.inside_map hl hk).mp hinside, fun j' m hm hinside' hne => ?_⟩
    have hlt := hleast j' (m.map f) (get?_map_eq_some.mpr ⟨m, hm, rfl⟩)
      ((hf.inside_map hl hm).mpr hinside') hne
    simpa [Loop.map] using hlt
  · intro hcase
    rcases hcase with ⟨k, hk, hinside, hleast⟩
    refine ⟨k.map f, get?_map_eq_some.mpr ⟨k, hk, rfl⟩, (hf.inside_map hl hk).mpr hinside,
      fun j' m' hm' hinside' hne => ?_⟩
    rcases get?_map_eq_some.mp hm' with ⟨m, hm, rfl⟩
    have hlt := hleast j' m hm ((hf.inside_map hl hm).mp hinside') hne
    simpa [Loop.map] using hlt

theorem Ordered.map (h : forest.Ordered) : (forest.map f).Ordered where
  head := by
    intro i l' hl'
    rcases get?_map_eq_some.mp hl' with ⟨l, hl, rfl⟩
    show (l.blocks.map f).head? = some (f l.header)
    rw [List.head?_map, h.head i l hl, Option.map_some]
  sublist := by
    intro i j k' l' hk' hl' hsub
    rcases get?_map_eq_some.mp hk' with ⟨k, hk, rfl⟩
    rcases get?_map_eq_some.mp hl' with ⟨l, hl, rfl⟩
    exact (h.sublist i j k l hk hl ((hf.subset_map hk hl).mp hsub)).map f

theorem Nested.map [DecidableEq beta] [DecidableEq gamma] (h : forest.Nested) :
    (forest.map f).Nested where
  nodup := by
    intro i l' hl'
    rcases get?_map_eq_some.mp hl' with ⟨l, hl, rfl⟩
    apply (List.nodup_map_iff_inj_on (h.nodup i l hl)).mpr
    intro a ha b hb
    exact hf i i l l hl hl a b ha hb
  header_mem := by
    intro i l' hl'
    rcases get?_map_eq_some.mp hl' with ⟨l, hl, rfl⟩
    exact List.mem_map_of_mem (h.header_mem i l hl)
  laminar := by
    intro i j k' l' hij hk' hl'
    rcases get?_map_eq_some.mp hk' with ⟨k, hk, rfl⟩
    rcases get?_map_eq_some.mp hl' with ⟨l, hl, rfl⟩
    rw [hf.inside_map hk hl, hf.inside_map hl hk]
    exact (h.laminar i j k l hij hk hl).imp_left (hf.disjoint_map hk hl)
  length_ne := by
    intro i j k' l' hij hk' hl' c hck hcl
    rcases get?_map_eq_some.mp hk' with ⟨k, hk, rfl⟩
    rcases get?_map_eq_some.mp hl' with ⟨l, hl, rfl⟩
    rcases List.mem_map.mp hck with ⟨a, ha, rfl⟩
    have hne := h.length_ne i j k l hij hk hl a ha ((hf.mem_blocks_map hk hl ha).mp hcl)
    simpa [Loop.map] using hne
  parent_eq_some := by
    intro i l' hl' j
    rcases get?_map_eq_some.mp hl' with ⟨l, hl, rfl⟩
    rw [hf.encloses_map hl]
    exact h.parent_eq_some i l hl j
  parent_eq_none := by
    intro i l' hl'
    rcases get?_map_eq_some.mp hl' with ⟨l, hl, rfl⟩
    refine (h.parent_eq_none i l hl).trans ?_
    constructor
    · intro hnone j k' hk'
      rcases get?_map_eq_some.mp hk' with ⟨k, hk, rfl⟩
      exact mt (hf.inside_map hl hk).mp (hnone j k hk)
    · intro hnone j k hk
      exact mt (hf.inside_map hl hk).mpr (hnone j _ (get?_map_eq_some.mpr ⟨k, hk, rfl⟩))
  parent_lt := by
    intro i l' hl'
    rcases get?_map_eq_some.mp hl' with ⟨l, hl, rfl⟩
    exact h.parent_lt i l hl
  depth_top := by
    intro i l' hl'
    rcases get?_map_eq_some.mp hl' with ⟨l, hl, rfl⟩
    exact h.depth_top i l hl
  depth_sub := by
    intro i j k' l' hl' hparent hk'
    rcases get?_map_eq_some.mp hl' with ⟨l, hl, rfl⟩
    rcases get?_map_eq_some.mp hk' with ⟨k, hk, rfl⟩
    exact h.depth_sub i j k l hl hparent hk
  depth_eq := by
    intro i l' hl'
    rcases get?_map_eq_some.mp hl' with ⟨l, hl, rfl⟩
    exact (h.depth_eq i l hl).trans (hf.holders_map hl (h.header_mem i l hl)).symm
  sorted_subLoops := by
    intro i l' hl'
    rcases get?_map_eq_some.mp hl' with ⟨l, hl, rfl⟩
    exact h.sorted_subLoops i l hl
  mem_subLoops := by
    intro i l' hl' j
    rcases get?_map_eq_some.mp hl' with ⟨l, hl, rfl⟩
    rw [exists_parent_map]
    exact h.mem_subLoops i l hl j
  sorted_topLevel := h.sorted_topLevel
  mem_topLevel := by
    intro j
    rw [exists_parent_map]
    exact h.mem_topLevel j

end

end LoopForest
end LoopNest
