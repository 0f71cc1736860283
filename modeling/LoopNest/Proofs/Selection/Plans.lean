import LoopNest.Proofs.Selection.Candidates
import LoopNest.Proofs.Selection.Policy
import LoopNest.Proofs.Tir.Language
import LoopNest.Proofs.Tir.Sessions
import LoopNest.Selection

/-!
# What a plan hands out

A plan repeats what the forest says about the selected loops.  No loop is handed out twice,
and no block is, except that a sub-loop may be handed out along with the loop around it.
-/

namespace LoopNest

/-!
## Entries of a plan
-/

/-- The entry says what the forest says about the loop `id`. -/
def PlannedLoop.StandsFor (forest : LoopForest String) (q : PlannedLoop) (id : LoopId) : Prop :=
  exists l, forest.get? id = some l ∧
    q.header = l.header ∧ q.depth = l.depth ∧ q.blocks = l.blocks

/-- The entry `q` is about a sub-loop of the loop that `r` is about, and lists the blocks in
the same order. -/
def PlannedLoop.IsSubLoop (forest : LoopForest String) (q r : PlannedLoop) : Prop :=
  (exists i j, q.StandsFor forest i ∧ r.StandsFor forest j ∧ forest.parent? i = some j) ∧
    q.blocks.Sublist r.blocks

/-- What a plan under a configuration has to be, so that nothing is handed out twice.  The
forest is the one of the function, with the names of the blocks. -/
structure Plan.Exclusive (config : TargetConfig) (forest : LoopForest String) (plan : Plan) :
    Prop where
  stands : forall q, q ∈ plan.loops ->
    exists i, q.StandsFor forest i ∧ forall j, q.StandsFor forest j -> j = i
  distinct : plan.loops.Pairwise fun q r =>
    forall i, q.StandsFor forest i -> ¬ r.StandsFor forest i
  header_first : forall q, q ∈ plan.loops -> q.blocks.head? = some q.header
  nodup : forall q, q ∈ plan.loops -> q.blocks.Nodup
  flat : config.targetNested = false -> (forall q, q ∈ plan.loops -> q.depth = 1) ∧
    plan.loops.Pairwise fun q r => q.blocks.Disjoint r.blocks
  nested : config.targetNested = true ->
    (forall q, q ∈ plan.loops -> q.depth = 1 ∨ q.depth = 2) ∧
    plan.loops.Pairwise fun q r =>
      q.blocks.Disjoint r.blocks ∨ q.IsSubLoop forest r ∨ r.IsSubLoop forest q

namespace PlannedLoop

variable {forest : LoopForest String} {q r : PlannedLoop} {i j : LoopId}

theorem StandsFor.exists_loop (hq : q.StandsFor forest i) : exists l, forest.get? i = some l := by
  rcases hq with ⟨l, hl, _⟩
  exact ⟨l, hl⟩

theorem StandsFor.blocks_eq {l : Loop String} (hq : q.StandsFor forest i)
    (hl : forest.get? i = some l) : q.blocks = l.blocks := by
  rcases hq with ⟨k, hk, _, _, hblocks⟩
  cases hk.symm.trans hl
  exact hblocks

theorem StandsFor.depth_eq (hq : q.StandsFor forest i) : q.depth = forest.levelOf i := by
  rcases hq with ⟨l, hl, _, hdepth, _⟩
  rw [LoopForest.levelOf_eq hl, hdepth]

theorem StandsFor.head_eq (hq : q.StandsFor forest i) (h : forest.Ordered) :
    q.blocks.head? = some q.header := by
  rcases hq with ⟨l, hl, hheader, _, hblocks⟩
  rw [hblocks, hheader, h.head i l hl]

section

variable (h : forest.Nested)
include h

theorem StandsFor.unique (hi : q.StandsFor forest i) (hj : q.StandsFor forest j) : i = j := by
  rcases hi.exists_loop with ⟨k, hk⟩
  rcases hj.exists_loop with ⟨l, hl⟩
  exact h.eq_of_blocks hk hl ((hi.blocks_eq hk).symm.trans (hj.blocks_eq hl))

theorem StandsFor.nodup (hq : q.StandsFor forest i) : q.blocks.Nodup := by
  rcases hq.exists_loop with ⟨l, hl⟩
  rw [hq.blocks_eq hl]
  exact h.nodup i l hl

theorem StandsFor.depth_pos (hq : q.StandsFor forest i) : 0 < q.depth := by
  rcases hq.exists_loop with ⟨l, hl⟩
  rw [hq.depth_eq]
  exact h.levelOf_pos (LoopForest.lt_size_of_get? hl)

theorem IsSubLoop.depth_eq (hqr : q.IsSubLoop forest r) : q.depth = r.depth + 1 := by
  rcases hqr with ⟨⟨i, j, hq, hr, hparent⟩, _⟩
  rw [hq.depth_eq, hr.depth_eq, h.levelOf_sub hparent]

theorem StandsFor.isSubLoop (hordered : forest.Ordered) (hq : q.StandsFor forest i)
    (hr : r.StandsFor forest j) {k l : Loop String} (hk : forest.get? i = some k)
    (hl : forest.get? j = some l) (hinside : k.Inside l) (hdepth : q.depth ≤ 2) :
    q.IsSubLoop forest r := by
  have hlevel : forest.levelOf i ≤ 2 := hq.depth_eq ▸ hdepth
  have hsublist := hordered.sublist i j k l hk hl hinside.1
  rw [← hq.blocks_eq hk, ← hr.blocks_eq hl] at hsublist
  exact ⟨⟨i, j, hq, hr, h.parent?_of_inside hk hl hinside hlevel⟩, hsublist⟩

/-- Entries about two loops of the first two levels have no block in common, unless one of
the loops is a sub-loop of the other. -/
theorem StandsFor.disjoint_or_isSubLoop (hordered : forest.Ordered) (hij : i ≠ j)
    (hq : q.StandsFor forest i) (hr : r.StandsFor forest j) (hqdepth : q.depth ≤ 2)
    (hrdepth : r.depth ≤ 2) :
    q.blocks.Disjoint r.blocks ∨ q.IsSubLoop forest r ∨ r.IsSubLoop forest q := by
  rcases hq.exists_loop with ⟨k, hk⟩
  rcases hr.exists_loop with ⟨l, hl⟩
  rcases h.laminar i j k l hij hk hl with hdisjoint | hinside | hinside
  · rw [hq.blocks_eq hk, hr.blocks_eq hl]
    exact Or.inl hdisjoint
  · exact Or.inr (Or.inl (hq.isSubLoop h hordered hr hk hl hinside hqdepth))
  · exact Or.inr (Or.inr (hr.isSubLoop h hordered hq hl hk hinside hrdepth))

end

end PlannedLoop

namespace Plan

variable {config : TargetConfig} {names : LoopForest String} {plan : Plan}

/-- A plan is exclusive if different entries are about different loops and all of them have
depths of candidates. -/
theorem exclusive_of_pairwise (h : names.Nested) (hordered : names.Ordered)
    (hstands : forall q, q ∈ plan.loops -> exists i, q.StandsFor names i)
    (hpairs : plan.loops.Pairwise fun q r =>
      exists i j, i ≠ j ∧ q.StandsFor names i ∧ r.StandsFor names j)
    (hdepth : forall q, q ∈ plan.loops -> config.takesDepth q.depth = true) :
    plan.Exclusive config names := by
  have hbound : forall q, q ∈ plan.loops -> q.depth ≤ 2 := by
    intro q hq
    exact TargetConfig.le_two_of_takesDepth (hdepth q hq)
  have hshared : plan.loops.Pairwise fun q r =>
      q.blocks.Disjoint r.blocks ∨ q.IsSubLoop names r ∨ r.IsSubLoop names q := by
    apply hpairs.imp_of_mem
    intro q r hq hr hcase
    rcases hcase with ⟨i, j, hij, hi, hj⟩
    exact hi.disjoint_or_isSubLoop h hordered hij hj (hbound q hq) (hbound r hr)
  constructor
  case stands =>
    intro q hq
    rcases hstands q hq with ⟨i, hi⟩
    exact ⟨i, hi, fun j hj => hj.unique h hi⟩
  case distinct =>
    apply hpairs.imp
    intro q r hcase k hq hr
    rcases hcase with ⟨i, j, hij, hi, hj⟩
    exact hij ((hi.unique h hq).trans (hr.unique h hj))
  case header_first =>
    intro q hq
    rcases hstands q hq with ⟨i, hi⟩
    exact hi.head_eq hordered
  case nodup =>
    intro q hq
    rcases hstands q hq with ⟨i, hi⟩
    exact hi.nodup h
  case flat =>
    intro hflat
    have hone : forall q, q ∈ plan.loops -> q.depth = 1 := by
      intro q hq
      exact (TargetConfig.takesDepth_flat hflat).mp (hdepth q hq)
    refine ⟨hone, hshared.imp_of_mem fun {q r} hq hr hcase => ?_⟩
    have hqdepth := hone q hq
    have hrdepth := hone r hr
    -- a sub-loop would be deeper than the loop around it
    rcases hcase with hdisjoint | hsub | hsub
    · exact hdisjoint
    · have hdeeper := hsub.depth_eq h
      lia
    · have hdeeper := hsub.depth_eq h
      lia
  case nested =>
    intro _
    refine ⟨fun q hq => ?_, hshared⟩
    rcases hstands q hq with ⟨i, hi⟩
    have hpos := hi.depth_pos h
    have hle := hbound q hq
    lia

end Plan

/-!
## Selected loops
-/

variable {beta : Type} {config : TargetConfig} {name : String} {code : Code beta}
  {forest : LoopForest beta} {selection : Selection} {q : PlannedLoop}

namespace Selection

theorem ids_numbered (c : Candidates) : (numbered c).map SelectedLoop.id = c.combined := by
  unfold numbered
  rw [List.map_map]
  exact List.zipIdx_map_fst 0 c.combined

theorem ids_sublist (config : TargetConfig) (name : String) (code : Code beta)
    (forest : LoopForest beta) :
    ((ofForest config name code forest).loops.map SelectedLoop.id).Sublist
      (Candidates.ofForest config code forest).combined := by
  unfold ofForest
  split
  · exact List.nil_sublist _
  · rw [← ids_numbered]
    exact (loops_sublist _ _).map _

theorem id_mem_discovered {s : SelectedLoop} (hs : s ∈ (ofForest config name code forest).loops) :
    s.id ∈ Candidates.discovered config forest := by
  have hmem := (ids_sublist config name code forest).subset (List.mem_map_of_mem hs)
  exact (Candidates.combined_perm config code forest).mem_iff.mp hmem

theorem candidateIndex_lt {s : SelectedLoop}
    (hs : s ∈ (ofForest config name code forest).loops) :
    s.candidateIndex < (Candidates.ofForest config code forest).size := by
  unfold ofForest at hs
  split at hs
  · cases hs
  · exact index_lt ((loops_sublist _ _).subset hs)

theorem nodup_ids [DecidableEq beta] (config : TargetConfig) (name : String) (code : Code beta)
    (h : forest.Nested) :
    ((ofForest config name code forest).loops.map SelectedLoop.id).Nodup := by
  have hperm := Candidates.combined_perm config code forest
  have hnodup := hperm.nodup_iff.mpr (Candidates.nodup_discovered h)
  exact hnodup.sublist (ids_sublist config name code forest)

end Selection

/-!
## Plans of selections
-/

namespace Plan

theorem standsFor_ofLoop {s : SelectedLoop} {l : Loop beta} (hl : forest.get? s.id = some l) :
    (PlannedLoop.ofLoop code l s).StandsFor (forest.map code.blockName) s.id :=
  ⟨l.map code.blockName, LoopForest.get?_map_eq_some.mpr ⟨l, hl, rfl⟩, rfl, rfl, rfl⟩

theorem exists_selected (hq : q ∈ (ofSelection config name code forest selection).loops) :
    exists s l, s ∈ selection.loops ∧ forest.get? s.id = some l ∧
      PlannedLoop.ofLoop code l s = q := by
  rcases List.mem_filterMap.mp hq with ⟨s, hs, hq⟩
  rcases Option.map_eq_some_iff.mp hq with ⟨l, hl, hq⟩
  exact ⟨s, l, hs, hl, hq⟩

/-- If all selected loops exist, all of them are handed out. -/
theorem indices_loops (config : TargetConfig) (name : String) (code : Code beta)
    (hids : forall s, s ∈ selection.loops -> s.id < forest.size) :
    (ofSelection config name code forest selection).loops.map PlannedLoop.candidateIndex =
      selection.loops.map SelectedLoop.candidateIndex := by
  show (List.filterMap _ _).map _ = _
  rw [List.map_filterMap, ← List.filterMap_eq_map]
  apply List.filterMap_congr
  intro s hs
  rcases LoopForest.get?_of_lt_size (hids s hs) with ⟨l, hl⟩
  rw [hl]
  rfl

/-- If no loop is selected twice, different entries are about different loops. -/
theorem pairwise_entries (config : TargetConfig) (name : String) (code : Code beta)
    (forest : LoopForest beta) (hids : (selection.loops.map SelectedLoop.id).Nodup) :
    (ofSelection config name code forest selection).loops.Pairwise fun q r =>
      exists i j, i ≠ j ∧ q.StandsFor (forest.map code.blockName) i ∧
        r.StandsFor (forest.map code.blockName) j := by
  apply List.pairwise_filterMap.mpr
  apply (List.pairwise_map.mp hids).imp
  intro s t hne q hq r hr
  rcases Option.map_eq_some_iff.mp hq with ⟨k, hk, rfl⟩
  rcases Option.map_eq_some_iff.mp hr with ⟨l, hl, rfl⟩
  exact ⟨s.id, t.id, hne, standsFor_ofLoop hk, standsFor_ofLoop hl⟩

/-- The plan for a nested forest is exclusive if the blocks of loops differ in their names. -/
theorem exclusive_ofForest [DecidableEq beta] (config : TargetConfig) (name : String)
    (h : forest.Nested) (hordered : forest.Ordered) (hnames : forest.Separates code.blockName) :
    (ofSelection config name code forest
      (Selection.ofForest config name code forest)).Exclusive config
        (forest.map code.blockName) := by
  apply exclusive_of_pairwise (LoopForest.Nested.map hnames h)
    (LoopForest.Ordered.map hnames hordered)
  · intro q hq
    rcases exists_selected hq with ⟨s, l, _, hl, rfl⟩
    exact ⟨s.id, standsFor_ofLoop hl⟩
  · exact pairwise_entries config name code forest (Selection.nodup_ids config name code h)
  · intro q hq
    rcases exists_selected hq with ⟨s, l, hs, hl, rfl⟩
    exact (Candidates.mem_discovered h hl).mp (Selection.id_mem_discovered hs)

end Plan

/-!
## Plans of modules
-/

namespace Tir
namespace Module

variable {text : String} {m : Module} {f : Function}

/-- Every function with a body in a module that a text stands for has a graph.  The plan for
it hands out all selected loops and is exclusive. -/
theorem plans_exclusive (h : Module.parse text = .ok m) (hf : f ∈ m.functions)
    (hbody : f.isDeclaration = false) (config : TargetConfig) (name : String) :
    exists g, m.graph? f = some g ∧
      let selection := Selection.ofForest config name m.code g.forest
      let plan := Plan.ofSelection config name m.code g.forest selection
      plan.loops.map PlannedLoop.candidateIndex =
          selection.loops.map SelectedLoop.candidateIndex ∧
        plan.Exclusive config (g.forest.map m.code.blockName) := by
  rcases parse_eq_ok.mp h with ⟨fs, hread, rfl⟩
  have hm := (wellFormed_of_readDrafts hread).1
  rcases hm.exists_graph hf hbody with ⟨g, hg⟩
  have hnested : g.forest.Nested :=
    LoopForest.Nested.map g.separates_blockAt g.laminar_loops.nested_forest
  refine ⟨g, hg, ?_, ?_⟩
  · apply Plan.indices_loops
    intro s hs
    exact Candidates.lt_size_of_discovered hnested (Selection.id_mem_discovered hs)
  · exact Plan.exclusive_ofForest config name hnested g.ordered_forest (hm.separates_names hf hg)

def nestText : String :=
  "f() \x7bentry: br ^outer\nouter: br ^inner\ninner: condbr ^inner, ^latch\nlatch: br ^outer\x7d"

def nestFunction : Function :=
  ⟨"f", false, ⟨0, 4⟩, ⟨0, 0⟩⟩

def nestModule : Module where
  functions := [nestFunction]
  blocks :=
    [⟨"entry", ⟨0, 1⟩, ⟨0, 1⟩⟩, ⟨"outer", ⟨1, 2⟩, ⟨1, 2⟩⟩, ⟨"inner", ⟨2, 4⟩, ⟨2, 3⟩⟩,
      ⟨"latch", ⟨4, 5⟩, ⟨3, 4⟩⟩]
  values :=
    [⟨"", .instruction, "br", .void, ⟨0, 0⟩⟩, ⟨"", .instruction, "br", .void, ⟨0, 0⟩⟩,
      ⟨"", .instruction, "condbr", .void, ⟨0, 0⟩⟩, ⟨"", .instruction, "br", .void, ⟨0, 0⟩⟩]
  valueOperands := []
  blockSuccessors := [1, 2, 2, 3, 1]

def nestConfig : TargetConfig :=
  { TargetConfig.standard.addKernel "f" [] with targetNested := true }

theorem plans_exclusive_nestModule :
    Module.parse nestText = .ok nestModule ∧ nestFunction ∈ nestModule.functions ∧
      nestFunction.isDeclaration = false ∧
      exists g, nestModule.graph? nestFunction = some g ∧
        let selection := Selection.ofForest nestConfig "f" nestModule.code g.forest
        let plan := Plan.ofSelection nestConfig "f" nestModule.code g.forest selection
        plan.loops.map PlannedLoop.candidateIndex =
            selection.loops.map SelectedLoop.candidateIndex ∧
          plan.Exclusive nestConfig (g.forest.map nestModule.code.blockName) := by
  have hparse : Module.parse nestText = .ok nestModule := by
    decide +kernel
  have hf : nestFunction ∈ nestModule.functions := List.mem_singleton.mpr rfl
  exact ⟨hparse, hf, rfl, plans_exclusive hparse hf rfl nestConfig "f"⟩

end Module
end Tir
end LoopNest
