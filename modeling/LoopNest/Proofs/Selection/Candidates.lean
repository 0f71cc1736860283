import LoopNest.Proofs.Flow.NaturalLoops
import LoopNest.Proofs.Forest.Preorder
import LoopNest.Selection
import Mathlib.Data.List.Basic

/-!
# Candidates

Which loops are candidates, and in which order.
-/

namespace LoopNest

/-!
## Candidates by class

The two lists of candidates divide the discovered loops by their class, and the number of a
candidate tells its class: the vectorized candidates have the small numbers.
-/

theorem LoopClass.isVectorized_iff {c : LoopClass} : c.isVectorized = true <-> c = .vectorized := by
  cases c <;> simp [isVectorized]

theorem LoopClass.not_isVectorized_iff {c : LoopClass} :
    (!c.isVectorized) = true <-> c = .scalar := by
  cases c <;> simp [isVectorized]

namespace Candidates

variable {beta : Type} {config : TargetConfig} {code : Code beta} {forest : LoopForest beta}
  {id : LoopId} {i : Nat}

theorem mem_vectorized :
    id ∈ (ofForest config code forest).vectorized <->
      id ∈ discovered config forest ∧ classUnder config code forest id = .vectorized := by
  show id ∈ List.filter _ _ <-> _
  rw [List.mem_filter, LoopClass.isVectorized_iff]

theorem mem_scalar :
    id ∈ (ofForest config code forest).scalar <->
      id ∈ discovered config forest ∧ classUnder config code forest id = .scalar := by
  show id ∈ List.filter _ _ <-> _
  rw [List.mem_filter, LoopClass.not_isVectorized_iff]

theorem combined_perm (config : TargetConfig) (code : Code beta) (forest : LoopForest beta) :
    (ofForest config code forest).combined.Perm (discovered config forest) :=
  List.filter_append_perm _ _

/-!
### Numbers and classes
-/

theorem vectorized_length_le (c : Candidates) : c.vectorized.length ≤ c.size := by
  rw [size, combined, List.length_append]
  exact Nat.le_add_right _ _

theorem numberClass_eq_vectorized {c : Candidates} :
    c.numberClass i = .vectorized <-> i < c.vectorized.length := by
  unfold numberClass
  split
  · rename_i hi
    simp [hi]
  · rename_i hi
    simp [hi]

/-- The class that a number stands for is the class of the loop with this number. -/
theorem classUnder_of_number (h : (ofForest config code forest).combined[i]? = some id) :
    classUnder config code forest id = (ofForest config code forest).numberClass i := by
  unfold combined at h
  by_cases hi : i < (ofForest config code forest).vectorized.length
  · rw [List.getElem?_append_left hi] at h
    rw [(mem_vectorized.mp (List.mem_of_getElem? h)).2, numberClass, if_pos hi]
  · rw [List.getElem?_append_right (Nat.le_of_not_lt hi)] at h
    rw [(mem_scalar.mp (List.mem_of_getElem? h)).2, numberClass, if_neg hi]

theorem classAt?_ofForest (config : TargetConfig) (code : Code beta) (forest : LoopForest beta)
    (i : Nat) :
    (ofForest config code forest).classAt? i =
      (ofForest config code forest).combined[i]?.map (classUnder config code forest) := by
  unfold classAt?
  split
  · rename_i hi
    have hid := List.getElem?_eq_getElem hi
    rw [hid, Option.map_some, classUnder_of_number hid]
  · rename_i hi
    rw [List.getElem?_eq_none (Nat.le_of_not_lt hi), Option.map_none]

end Candidates

/-!
## Discovered loops

The candidates are found by going through the top-level loops and their sub-loops.  In a
nested forest this gives the discovery order of all loops, restricted to small depths: no
loop is found twice and none of these depths is missed.
-/

/-- Are the loops of a depth candidates? -/
def TargetConfig.takesDepth (config : TargetConfig) (depth : Nat) : Bool :=
  if config.targetNested then decide (depth ≤ 2) else decide (depth = 1)

namespace TargetConfig

variable {config : TargetConfig} {depth : Nat}

theorem takesDepth_flat (h : config.targetNested = false) :
    config.takesDepth depth = true <-> depth = 1 := by
  simp [takesDepth, h]

theorem takesDepth_nested (h : config.targetNested = true) :
    config.takesDepth depth = true <-> depth ≤ 2 := by
  simp [takesDepth, h]

theorem le_two_of_takesDepth (h : config.takesDepth depth = true) : depth ≤ 2 := by
  cases hnested : config.targetNested with
  | true => exact (takesDepth_nested hnested).mp h
  | false =>
      have hone := (takesDepth_flat hnested).mp h
      lia

end TargetConfig

namespace Candidates

variable {beta : Type} [DecidableEq beta] {forest : LoopForest beta} {config : TargetConfig}
  {id : LoopId} {l : Loop beta}

theorem takesDepth_of_pos {depth : Nat} (h : 0 < depth) :
    config.takesDepth depth = decide (depth < 1 + if config.targetNested then 2 else 1) := by
  unfold TargetConfig.takesDepth
  split
  · exact decide_eq_decide.mpr (by lia)
  · exact decide_eq_decide.mpr (by lia)

omit [DecidableEq beta] in
/-- The candidates below a top-level loop are its subtree cut off at one or two levels. -/
theorem discovered_eq_flatMap (config : TargetConfig) (forest : LoopForest beta) :
    discovered config forest =
      forest.topLevel.flatMap (forest.subtree (if config.targetNested then 2 else 1)) := by
  unfold discovered
  apply List.flatMap_congr
  intro i _
  split
  · rw [LoopForest.subtree_two]
  · rw [LoopForest.subtree_one]

theorem discovered_eq_filter (h : forest.Nested) :
    discovered config forest =
      forest.preorder.filter fun id => config.takesDepth (forest.levelOf id) := by
  rw [h.preorder_eq_outline, LoopForest.outline, List.filter_flatMap, discovered_eq_flatMap]
  apply List.flatMap_congr
  intro i hi
  have hsize := (h.mem_topLevel_iff.mp hi).1
  rw [← h.filter_subtree hsize (Nat.le_add_left _ i), h.levelOf_top hi]
  apply List.filter_congr
  intro j hj
  have hj : j ∈ forest.outline := List.mem_flatMap.mpr ⟨i, hi, hj⟩
  rw [takesDepth_of_pos (h.levelOf_pos (h.mem_outline.mp hj))]

theorem nodup_discovered (h : forest.Nested) : (discovered config forest).Nodup := by
  rw [discovered_eq_filter h, h.preorder_eq_outline]
  exact h.nodup_outline.filter _

theorem lt_size_of_discovered (h : forest.Nested) (hid : id ∈ discovered config forest) :
    id < forest.size := by
  rw [discovered_eq_filter h, h.preorder_eq_outline] at hid
  exact h.mem_outline.mp (List.mem_of_mem_filter hid)

theorem mem_discovered (h : forest.Nested) (hl : forest.get? id = some l) :
    id ∈ discovered config forest <-> config.takesDepth l.depth = true := by
  rw [discovered_eq_filter h, List.mem_filter, h.preorder_eq_outline, h.mem_outline,
    LoopForest.levelOf_eq hl]
  exact and_iff_right (LoopForest.lt_size_of_get? hl)

theorem size_le {code : Code beta} (h : forest.Nested) :
    (ofForest config code forest).size ≤ forest.size := by
  have hsub : discovered config forest ⊆ List.range forest.size := by
    intro id hid
    exact List.mem_range.mpr (lt_size_of_discovered h hid)
  have hle := (List.subperm_of_subset (nodup_discovered h) hsub).length_le
  rwa [List.length_range, ← (combined_perm config code forest).length_eq] at hle

/-- In every graph the candidates are the loops of the right depths in discovery order,
divided by their class, and the number of a candidate tells its class. -/
theorem candidates_divide_discovered {n : Nat} (g : FlowGraph n) (code : Code (Fin n))
    (config : TargetConfig) :
    let classOf := classUnder config code g.forest
    let found := g.forest.preorder.filter fun id => config.takesDepth (g.forest.levelOf id)
    let c := ofForest config code g.forest
    c.vectorized = found.filter (fun id => decide (classOf id = .vectorized)) ∧
      c.scalar = found.filter (fun id => decide (classOf id = .scalar)) ∧
      c.combined.Perm found ∧ c.combined.Nodup ∧
      (forall id l, g.forest.get? id = some l ->
        (id ∈ c.combined <-> config.takesDepth l.depth = true)) ∧
      forall i, c.classAt? i = c.combined[i]?.map classOf := by
  intro classOf found c
  have hnested : g.forest.Nested :=
    LoopForest.Nested.map g.separates_blockAt g.laminar_loops.nested_forest
  have hfound : discovered config g.forest = found := discovered_eq_filter hnested
  have hperm : c.combined.Perm found := hfound ▸ combined_perm config code g.forest
  refine ⟨?_, ?_, hperm, ?_, fun id l hl => ?_, classAt?_ofForest config code g.forest⟩
  · rw [← hfound]
    apply List.filter_congr
    intro id _
    rw [Bool.eq_iff_iff, LoopClass.isVectorized_iff, decide_eq_true_eq]
  · rw [← hfound]
    apply List.filter_congr
    intro id _
    rw [Bool.eq_iff_iff, LoopClass.not_isVectorized_iff, decide_eq_true_eq]
  · rw [hperm.nodup_iff, ← hfound]
    exact nodup_discovered hnested
  · rw [hperm.mem_iff, ← hfound]
    exact mem_discovered hnested hl

end Candidates

end LoopNest
