import LoopNest.Proofs.Forest.Nested

/-!
# Owned blocks

In a partitioned forest the own blocks of a loop are what its sub-loops leave of it.  So
every block of a loop is an own block of exactly one loop, the innermost one that holds it,
and the questions about a block are answered by this loop.
-/

namespace LoopNest

variable {beta gamma : Type}

namespace LoopForest

def Covers (forest : LoopForest beta) (b : beta) : Prop :=
  exists i l, forest.get? i = some l ∧ b ∈ l.blocks

/-- Every loop is divided into its own blocks and its sub-loops, and the answers about a
block are those of the loop that owns it. -/
structure Partitioned [DecidableEq beta] (forest : LoopForest beta) : Prop where
  mem_blocks : forall i l, forest.get? i = some l -> forall b,
    b ∈ l.blocks <-> b ∈ l.ownBlocks ∨
      exists j k, j ∈ l.subLoops ∧ forest.get? j = some k ∧ b ∈ k.blocks
  own_disjoint : forall i l, forest.get? i = some l ->
    forall j k, j ∈ l.subLoops -> forest.get? j = some k -> l.ownBlocks.Disjoint k.blocks
  subLoops_disjoint : forall i l, forest.get? i = some l ->
    forall j j' k k', j ≠ j' -> j ∈ l.subLoops -> j' ∈ l.subLoops ->
      forest.get? j = some k -> forest.get? j' = some k' -> k.blocks.Disjoint k'.blocks
  own_sublist : forall i l, forest.get? i = some l -> l.ownBlocks.Sublist l.blocks
  own_head : forall i l, forest.get? i = some l -> l.ownBlocks.head? = some l.header
  loopFor_eq_some : forall b i,
    forest.loopFor? b = some i <-> exists l, forest.get? i = some l ∧ b ∈ l.ownBlocks
  loopFor_eq_none : forall b, forest.loopFor? b = none <-> ¬ forest.Covers b
  depthOf_eq : forall b, forest.depthOf b = forest.holders b
  isHeader_iff : forall b,
    forest.isHeader b = true <-> exists i l, forest.get? i = some l ∧ l.header = b

section

variable [DecidableEq beta] {forest : LoopForest beta} {i : LoopId} {l : Loop beta} {b : beta}

theorem depthOf_of_loopFor (hb : forest.loopFor? b = some i) (hl : forest.get? i = some l) :
    forest.depthOf b = l.depth := by
  simp [depthOf, hb, hl]

theorem depthOf_of_loopFor_none (hb : forest.loopFor? b = none) : forest.depthOf b = 0 := by
  simp [depthOf, hb]

theorem isHeader_of_loopFor (hb : forest.loopFor? b = some i) (hl : forest.get? i = some l) :
    forest.isHeader b = decide (l.header = b) := by
  simp [isHeader, hb, hl]

theorem isHeader_of_loopFor_none (hb : forest.loopFor? b = none) :
    forest.isHeader b = false := by
  simp [isHeader, hb]

theorem holders_eq_zero (hb : ¬ forest.Covers b) : forest.holders b = 0 := by
  apply List.countP_eq_zero.mpr
  intro l hl hmem
  rcases mem_loops.mp hl with ⟨i, hi⟩
  exact hb ⟨i, l, hi, of_decide_eq_true hmem⟩

theorem Partitioned.header_mem (h : forest.Partitioned) (hl : forest.get? i = some l) :
    l.header ∈ l.blocks := by
  have hown : l.header ∈ l.ownBlocks := List.mem_of_head? (h.own_head i l hl)
  exact (h.own_sublist i l hl).subset hown

theorem Partitioned.covers_header (h : forest.Partitioned) (hl : forest.get? i = some l) :
    forest.Covers l.header :=
  ⟨i, l, hl, h.header_mem hl⟩

theorem Partitioned.covers_of_innermost (h : forest.Partitioned) {entry : beta × LoopId}
    (hentry : entry ∈ forest.innermost) : forest.Covers entry.1 := by
  by_contra hnot
  have hnone := List.lookup_eq_none_iff.mp ((h.loopFor_eq_none entry.1).mpr hnot) entry hentry
  simp at hnone

end

/-!
## Renamed forests
-/

theorem lookup_map {f : beta -> gamma} [DecidableEq beta] [DecidableEq gamma] {b : beta}
    {entries : List (beta × LoopId)}
    (hinj : forall entry, entry ∈ entries -> f b = f entry.1 -> b = entry.1) :
    (entries.map fun entry => (f entry.1, entry.2)).lookup (f b) = entries.lookup b := by
  induction entries with
  | nil => rfl
  | cons entry entries ih =>
      have ih := ih fun other hother => hinj other (List.mem_cons_of_mem _ hother)
      rw [List.map_cons, List.lookup_cons, List.lookup_cons, ih]
      have hbeq : (f b == f entry.1) = (b == entry.1) := by
        rw [Bool.eq_iff_iff, beq_iff_eq, beq_iff_eq]
        exact ⟨hinj entry List.mem_cons_self, congrArg f⟩
      rw [hbeq]

variable [DecidableEq beta] [DecidableEq gamma] {forest : LoopForest beta} {f : beta -> gamma}
  {b : beta} {c : gamma} {i : LoopId} {l : Loop beta}

omit [DecidableEq beta] [DecidableEq gamma] in
theorem covers_map : (forest.map f).Covers c <-> exists b, forest.Covers b ∧ f b = c := by
  constructor
  · intro hcase
    rcases hcase with ⟨i, l', hl', hc⟩
    rcases get?_map_eq_some.mp hl' with ⟨l, hl, rfl⟩
    rcases List.mem_map.mp hc with ⟨b, hb, rfl⟩
    exact ⟨b, ⟨i, l, hl, hb⟩, rfl⟩
  · intro hcase
    rcases hcase with ⟨b, ⟨i, l, hl, hb⟩, rfl⟩
    exact ⟨i, l.map f, get?_map_eq_some.mpr ⟨l, hl, rfl⟩, List.mem_map_of_mem hb⟩

section

variable (hf : forest.Separates f) (h : forest.Partitioned)
include hf h

omit [DecidableEq beta] [DecidableEq gamma] h in
theorem Separates.eq_of_covers {a b : beta} (ha : forest.Covers a) (hb : forest.Covers b)
    (hab : f a = f b) : a = b := by
  rcases ha with ⟨i, k, hk, ha⟩
  rcases hb with ⟨j, l, hl, hb⟩
  exact hf i j k l hk hl a b ha hb hab

theorem loopFor?_map (hb : forest.Covers b) :
    (forest.map f).loopFor? (f b) = forest.loopFor? b := by
  apply lookup_map
  intro entry hentry
  exact hf.eq_of_covers hb (h.covers_of_innermost hentry)

omit hf in
theorem loopFor?_map_eq_none (hc : ¬ (forest.map f).Covers c) :
    (forest.map f).loopFor? c = none := by
  apply List.lookup_eq_none_iff.mpr
  intro entry' hentry'
  rcases List.mem_map.mp hentry' with ⟨entry, hentry, rfl⟩
  rw [bne_iff_ne]
  intro heq
  subst heq
  exact hc (covers_map.mpr ⟨entry.1, h.covers_of_innermost hentry, rfl⟩)

theorem depthOf_map (hb : forest.Covers b) :
    (forest.map f).depthOf (f b) = forest.depthOf b := by
  cases hi : forest.loopFor? b with
  | none => exact absurd hb ((h.loopFor_eq_none b).mp hi)
  | some i =>
      rcases (h.loopFor_eq_some b i).mp hi with ⟨l, hl, _⟩
      have hi' := (loopFor?_map hf h hb).trans hi
      rw [depthOf_of_loopFor hi hl,
        depthOf_of_loopFor hi' (get?_map_eq_some.mpr ⟨l, hl, rfl⟩)]
      rfl

theorem isHeader_map (hb : forest.Covers b) :
    (forest.map f).isHeader (f b) = forest.isHeader b := by
  cases hi : forest.loopFor? b with
  | none => exact absurd hb ((h.loopFor_eq_none b).mp hi)
  | some i =>
      rcases (h.loopFor_eq_some b i).mp hi with ⟨l, hl, _⟩
      have hi' := (loopFor?_map hf h hb).trans hi
      rw [isHeader_of_loopFor hi hl,
        isHeader_of_loopFor hi' (get?_map_eq_some.mpr ⟨l, hl, rfl⟩)]
      apply decide_eq_decide.mpr
      exact ⟨hf.eq_of_covers (h.covers_header hl) hb, congrArg f⟩

omit [DecidableEq gamma] hf in
theorem mem_blocks_map_iff (hl : forest.get? i = some l) :
    c ∈ (l.map f).blocks <-> c ∈ (l.map f).ownBlocks ∨
      exists j k, j ∈ l.subLoops ∧ (forest.map f).get? j = some k ∧ c ∈ k.blocks := by
  constructor
  · intro hc
    rcases List.mem_map.mp hc with ⟨b, hb, rfl⟩
    rcases (h.mem_blocks i l hl b).mp hb with hown | ⟨j, k, hj, hk, hbk⟩
    · exact Or.inl (List.mem_map_of_mem hown)
    · exact Or.inr ⟨j, k.map f, hj, get?_map_eq_some.mpr ⟨k, hk, rfl⟩, List.mem_map_of_mem hbk⟩
  · intro hcase
    rcases hcase with hc | ⟨j, k', hj, hk', hc⟩
    · rcases List.mem_map.mp hc with ⟨b, hb, rfl⟩
      exact List.mem_map_of_mem ((h.mem_blocks i l hl b).mpr (Or.inl hb))
    · rcases get?_map_eq_some.mp hk' with ⟨k, hk, rfl⟩
      rcases List.mem_map.mp hc with ⟨b, hb, rfl⟩
      exact List.mem_map_of_mem ((h.mem_blocks i l hl b).mpr (Or.inr ⟨j, k, hj, hk, hb⟩))

theorem loopFor?_map_eq_some :
    (forest.map f).loopFor? c = some i <->
      exists l, (forest.map f).get? i = some l ∧ c ∈ l.ownBlocks := by
  constructor
  · intro hi
    by_cases hc : (forest.map f).Covers c
    · rcases covers_map.mp hc with ⟨b, hb, rfl⟩
      rw [loopFor?_map hf h hb] at hi
      rcases (h.loopFor_eq_some b i).mp hi with ⟨l, hl, hown⟩
      exact ⟨l.map f, get?_map_eq_some.mpr ⟨l, hl, rfl⟩, List.mem_map_of_mem hown⟩
    · rw [loopFor?_map_eq_none h hc] at hi
      cases hi
  · intro hcase
    rcases hcase with ⟨l', hl', hown⟩
    rcases get?_map_eq_some.mp hl' with ⟨l, hl, rfl⟩
    rcases List.mem_map.mp hown with ⟨b, hb, rfl⟩
    rw [loopFor?_map hf h ⟨i, l, hl, (h.own_sublist i l hl).subset hb⟩]
    exact (h.loopFor_eq_some b i).mpr ⟨l, hl, hb⟩

theorem isHeader_map_iff :
    (forest.map f).isHeader c = true <->
      exists i l, (forest.map f).get? i = some l ∧ l.header = c := by
  have hheaders : (exists i l', (forest.map f).get? i = some l' ∧ l'.header = c) <->
      exists i l, forest.get? i = some l ∧ f l.header = c := by
    constructor
    · intro hcase
      rcases hcase with ⟨i, l', hl', hc⟩
      rcases get?_map_eq_some.mp hl' with ⟨l, hl, rfl⟩
      exact ⟨i, l, hl, hc⟩
    · intro hcase
      rcases hcase with ⟨i, l, hl, hc⟩
      exact ⟨i, l.map f, get?_map_eq_some.mpr ⟨l, hl, rfl⟩, hc⟩
  rw [hheaders]
  by_cases hc : (forest.map f).Covers c
  · rcases covers_map.mp hc with ⟨b, hb, rfl⟩
    rw [isHeader_map hf h hb, h.isHeader_iff b]
    constructor
    · intro hcase
      rcases hcase with ⟨i, l, hl, rfl⟩
      exact ⟨i, l, hl, rfl⟩
    · intro hcase
      rcases hcase with ⟨i, l, hl, hheader⟩
      exact ⟨i, l, hl, hf.eq_of_covers (h.covers_header hl) hb hheader⟩
  · rw [isHeader_of_loopFor_none (loopFor?_map_eq_none h hc)]
    constructor
    · intro hfalse
      cases hfalse
    · intro hcase
      rcases hcase with ⟨i, l, hl, rfl⟩
      exact absurd (covers_map.mpr ⟨l.header, h.covers_header hl, rfl⟩) hc

theorem Partitioned.map : (forest.map f).Partitioned where
  mem_blocks := by
    intro i l' hl' c
    rcases get?_map_eq_some.mp hl' with ⟨l, hl, rfl⟩
    exact mem_blocks_map_iff h hl
  own_disjoint := by
    intro i l' hl' j k' hj hk' c hown hck
    rcases get?_map_eq_some.mp hl' with ⟨l, hl, rfl⟩
    rcases get?_map_eq_some.mp hk' with ⟨k, hk, rfl⟩
    rcases List.mem_map.mp hown with ⟨b, hb, rfl⟩
    have hbl := (h.own_sublist i l hl).subset hb
    exact h.own_disjoint i l hl j k hj hk hb ((hf.mem_blocks_map hl hk hbl).mp hck)
  subLoops_disjoint := by
    intro i l' hl' j j' k' m' hne hj hj' hk' hm'
    rcases get?_map_eq_some.mp hl' with ⟨l, hl, rfl⟩
    rcases get?_map_eq_some.mp hk' with ⟨k, hk, rfl⟩
    rcases get?_map_eq_some.mp hm' with ⟨m, hm, rfl⟩
    exact hf.disjoint_map hk hm (h.subLoops_disjoint i l hl j j' k m hne hj hj' hk hm)
  own_sublist := by
    intro i l' hl'
    rcases get?_map_eq_some.mp hl' with ⟨l, hl, rfl⟩
    exact (h.own_sublist i l hl).map f
  own_head := by
    intro i l' hl'
    rcases get?_map_eq_some.mp hl' with ⟨l, hl, rfl⟩
    simp [Loop.map, h.own_head i l hl]
  loopFor_eq_some := fun _ _ => loopFor?_map_eq_some hf h
  loopFor_eq_none := by
    intro c
    constructor
    · intro hnone hc
      rcases covers_map.mp hc with ⟨b, hb, rfl⟩
      rw [loopFor?_map hf h hb] at hnone
      exact (h.loopFor_eq_none b).mp hnone hb
    · exact loopFor?_map_eq_none h
  depthOf_eq := by
    intro c
    by_cases hc : (forest.map f).Covers c
    · rcases covers_map.mp hc with ⟨b, hb, rfl⟩
      rcases hb with ⟨i, l, hl, hbl⟩
      rw [depthOf_map hf h ⟨i, l, hl, hbl⟩, hf.holders_map hl hbl]
      exact h.depthOf_eq b
    · rw [depthOf_of_loopFor_none (loopFor?_map_eq_none h hc), holders_eq_zero hc]
  isHeader_iff := fun _ => isHeader_map_iff hf h

end

end LoopForest
end LoopNest
