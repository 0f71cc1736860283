import LoopNest.Proofs.Selection.Candidates
import LoopNest.Selection
import Mathlib.Data.List.Sort

/-!
# The selection policy

The numbers that were asked for come first: if one of them fits a candidate, the candidates
that they fit are selected and no others.  Otherwise all candidates of one class are, the
vectorized ones if there are any.  Whatever was asked for is either selected or reported.
-/

namespace LoopNest
namespace Selection

/-- What a selection among the candidates `c` has to be when the numbers `ids` were asked for
and `classOf` tells the classes of loops. -/
structure Follows (c : Candidates) (ids : List Nat) (classOf : LoopId -> LoopClass)
    (s : Selection) : Prop where
  fits : forall l, l ∈ s.loops -> c.combined[l.candidateIndex]? = some l.id
  below : forall l, l ∈ s.loops ->
    (l.loopClass = .vectorized <-> l.candidateIndex < c.vectorized.length)
  classified : forall l, l ∈ s.loops -> l.loopClass = classOf l.id
  increasing : (s.loops.map SelectedLoop.candidateIndex).Pairwise (· < ·)
  one_event : s.events.length = s.loops.length
  explicit : (exists i, i ∈ ids ∧ i < c.size) ->
    (forall i, i ∈ s.loops.map SelectedLoop.candidateIndex <-> i ∈ ids ∧ i < c.size) ∧
      s.events = s.loops.map (fun l => .selected l.candidateIndex l.loopClass) ∧
      s.autoSelected = false ∧ ids.length = s.loops.length + s.unmatchedIds.length
  automatic : (forall i, i ∈ ids -> c.size ≤ i) ->
    s.loops.map SelectedLoop.candidateIndex =
        List.range (if 0 < c.vectorized.length then c.vectorized.length else c.size) ∧
      s.events = s.loops.map (fun l => .autoSelected l.loopClass) ∧
      (forall k l, k ∈ s.loops -> l ∈ s.loops -> k.loopClass = l.loopClass) ∧
      (s.autoSelected = true <-> c.combined ≠ []) ∧ s.unmatchedIds = ids
  sorted_unmatched : s.unmatchedIds.Pairwise (· < ·)
  mem_unmatched : forall i, i ∈ s.unmatchedIds <-> i ∈ ids ∧ c.size ≤ i

variable {c : Candidates} {ids : List Nat} {l : SelectedLoop} {i : Nat}

/-!
## Numbered candidates
-/

theorem mem_numbered :
    l ∈ numbered c <->
      c.combined[l.candidateIndex]? = some l.id ∧ l.loopClass = c.numberClass l.candidateIndex := by
  unfold numbered
  rw [List.mem_map]
  constructor
  · intro hcase
    rcases hcase with ⟨⟨id, i⟩, hentry, rfl⟩
    exact ⟨List.mem_zipIdx_iff_getElem?.mp hentry, rfl⟩
  · intro hcase
    rcases hcase with ⟨hid, hclass⟩
    exists (l.id, l.candidateIndex)
    constructor
    · exact List.mem_zipIdx_iff_getElem?.mpr hid
    · rw [← hclass]

theorem index_lt (h : l ∈ numbered c) : l.candidateIndex < c.size :=
  (List.getElem?_eq_some_iff.mp (mem_numbered.mp h).1).1

theorem indices_numbered (c : Candidates) :
    (numbered c).map SelectedLoop.candidateIndex = List.range c.size := by
  unfold numbered
  rw [List.map_map]
  show c.combined.zipIdx.map Prod.snd = _
  rw [List.zipIdx_map_snd, List.range_eq_range']
  rfl

theorem exists_numbered (hi : i < c.size) : exists l, l ∈ numbered c ∧ l.candidateIndex = i := by
  have hmem : i ∈ (numbered c).map SelectedLoop.candidateIndex := by
    rw [indices_numbered]
    exact List.mem_range.mpr hi
  exact List.mem_map.mp hmem

theorem increasing_of_sublist {ls : List SelectedLoop} (h : ls.Sublist (numbered c)) :
    (ls.map SelectedLoop.candidateIndex).Pairwise (· < ·) := by
  have hsub := h.map SelectedLoop.candidateIndex
  rw [indices_numbered] at hsub
  exact List.pairwise_lt_range.sublist hsub

/-!
## Explicit selection
-/

theorem explicit_sublist (c : Candidates) (ids : List Nat) :
    (explicit c ids).Sublist (numbered c) :=
  List.filter_sublist

theorem mem_explicit : l ∈ explicit c ids <-> l ∈ numbered c ∧ l.candidateIndex ∈ ids := by
  unfold explicit
  rw [List.mem_filter, List.contains_iff_mem]

theorem mem_indices_explicit :
    i ∈ (explicit c ids).map SelectedLoop.candidateIndex <-> i ∈ ids ∧ i < c.size := by
  rw [List.mem_map]
  constructor
  · intro hcase
    rcases hcase with ⟨l, hl, rfl⟩
    rcases mem_explicit.mp hl with ⟨hnumbered, hid⟩
    exact ⟨hid, index_lt hnumbered⟩
  · intro hcase
    rcases hcase with ⟨hid, hi⟩
    rcases exists_numbered hi with ⟨l, hl, rfl⟩
    exact ⟨l, mem_explicit.mpr ⟨hl, hid⟩, rfl⟩

theorem explicit_eq_nil : explicit c ids = [] <-> forall i, i ∈ ids -> c.size ≤ i := by
  rw [← List.map_eq_nil_iff (f := SelectedLoop.candidateIndex), List.eq_nil_iff_forall_not_mem]
  constructor
  · intro hnone i hi
    by_contra hlt
    exact hnone i (mem_indices_explicit.mpr ⟨hi, Nat.lt_of_not_le hlt⟩)
  · intro hall i hi
    rcases mem_indices_explicit.mp hi with ⟨hid, hlt⟩
    exact Nat.not_le_of_lt hlt (hall i hid)

theorem indices_explicit (hids : ids.Pairwise (· < ·)) :
    (explicit c ids).map SelectedLoop.candidateIndex =
      ids.filter fun i => !decide (c.size ≤ i) := by
  have hsorted : ((explicit c ids).map SelectedLoop.candidateIndex).Pairwise (· < ·) :=
    increasing_of_sublist (explicit_sublist c ids)
  apply List.Pairwise.eq_of_mem_iff hsorted (hids.filter _)
  intro i
  refine mem_indices_explicit.trans ?_
  simp

/-!
## Automatic selection
-/

theorem automatic_sublist (c : Candidates) : (automatic c).Sublist (numbered c) := by
  unfold automatic
  split
  · exact List.Sublist.refl _
  · exact List.filter_sublist

theorem mem_automatic :
    l ∈ automatic c <->
      l ∈ numbered c ∧ (0 < c.vectorized.length -> l.candidateIndex < c.vectorized.length) := by
  unfold automatic
  split
  · rename_i hempty
    rw [List.isEmpty_iff_length_eq_zero] at hempty
    simp [hempty]
  · rename_i hsome
    rw [List.isEmpty_iff_length_eq_zero] at hsome
    rw [List.mem_filter, LoopClass.isVectorized_iff]
    apply and_congr_right
    intro hl
    rw [(mem_numbered.mp hl).2, Candidates.numberClass_eq_vectorized]
    exact ⟨fun h _ => h, fun h => h (Nat.pos_of_ne_zero hsome)⟩

theorem indices_automatic (c : Candidates) :
    (automatic c).map SelectedLoop.candidateIndex =
      List.range (if 0 < c.vectorized.length then c.vectorized.length else c.size) := by
  have hle := c.vectorized_length_le
  apply List.Pairwise.eq_of_mem_iff (increasing_of_sublist (automatic_sublist c))
    List.pairwise_lt_range
  intro i
  rw [List.mem_map, List.mem_range]
  constructor
  · intro hcase
    rcases hcase with ⟨l, hl, rfl⟩
    rcases mem_automatic.mp hl with ⟨hnumbered, hclass⟩
    split
    · rename_i hpos
      exact hclass hpos
    · exact index_lt hnumbered
  · intro hi
    have hsize : i < c.size := by
      split at hi
      · exact Nat.lt_of_lt_of_le hi hle
      · exact hi
    rcases exists_numbered hsize with ⟨l, hl, rfl⟩
    refine ⟨l, mem_automatic.mpr ⟨hl, fun hpos => ?_⟩, rfl⟩
    rwa [if_pos hpos] at hi

/-- An automatic selection does not mix the classes. -/
theorem class_automatic (hl : l ∈ automatic c) :
    l.loopClass = if 0 < c.vectorized.length then .vectorized else .scalar := by
  rcases mem_automatic.mp hl with ⟨hnumbered, hclass⟩
  rw [(mem_numbered.mp hnumbered).2]
  split
  · rename_i hpos
    exact Candidates.numberClass_eq_vectorized.mpr (hclass hpos)
  · rename_i hzero
    rw [Candidates.numberClass, if_neg (by lia)]

theorem automatic_eq_nil : automatic c = [] <-> c.combined = [] := by
  rw [← List.map_eq_nil_iff (f := SelectedLoop.candidateIndex), indices_automatic,
    List.range_eq_nil, ← List.length_eq_zero_iff]
  have hle := c.vectorized_length_le
  unfold Candidates.size at hle ⊢
  split
  · lia
  · rfl

/-!
## Both ways
-/

theorem ofCandidates_of_fit (h : exists i, i ∈ ids ∧ i < c.size) :
    ofCandidates c ids =
      ⟨explicit c ids, (explicit c ids).map fun l => .selected l.candidateIndex l.loopClass,
        ids.filter fun i => decide (c.size ≤ i), false⟩ := by
  have hsome : explicit c ids ≠ [] := by
    intro hnil
    rcases h with ⟨i, hi, hlt⟩
    exact Nat.not_le_of_lt hlt (explicit_eq_nil.mp hnil i hi)
  unfold ofCandidates
  cases hloops : explicit c ids with
  | nil => exact absurd hloops hsome
  | cons l ls => rfl

theorem ofCandidates_of_no_fit (h : forall i, i ∈ ids -> c.size ≤ i) :
    ofCandidates c ids =
      ⟨automatic c, (automatic c).map fun l => .autoSelected l.loopClass,
        ids.filter fun i => decide (c.size ≤ i), !(automatic c).isEmpty⟩ := by
  unfold ofCandidates
  rw [explicit_eq_nil.mpr h]

/-- Whether numbers fit or not, the selected loops are candidates in the order of their
numbers. -/
theorem loops_sublist (c : Candidates) (ids : List Nat) :
    (ofCandidates c ids).loops.Sublist (numbered c) := by
  unfold ofCandidates
  split
  · exact automatic_sublist c
  · exact explicit_sublist c ids

theorem length_events (c : Candidates) (ids : List Nat) :
    (ofCandidates c ids).events.length = (ofCandidates c ids).loops.length := by
  unfold ofCandidates
  split
  · exact List.length_map _
  · exact List.length_map _

theorem unmatchedIds_ofCandidates (c : Candidates) (ids : List Nat) :
    (ofCandidates c ids).unmatchedIds = ids.filter fun i => decide (c.size ≤ i) := by
  unfold ofCandidates
  split
  · rfl
  · rfl

theorem follows_ofCandidates {classOf : LoopId -> LoopClass} (hids : ids.Pairwise (· < ·))
    (hclass : forall i id, c.combined[i]? = some id -> classOf id = c.numberClass i) :
    (ofCandidates c ids).Follows c ids classOf := by
  have hnumbered : forall l, l ∈ (ofCandidates c ids).loops -> l ∈ numbered c :=
    fun l hl => (loops_sublist c ids).subset hl
  constructor
  case fits =>
    intro l hl
    exact (mem_numbered.mp (hnumbered l hl)).1
  case below =>
    intro l hl
    rw [(mem_numbered.mp (hnumbered l hl)).2, Candidates.numberClass_eq_vectorized]
  case classified =>
    intro l hl
    rcases mem_numbered.mp (hnumbered l hl) with ⟨hid, hnumber⟩
    rw [hnumber, hclass l.candidateIndex l.id hid]
  case increasing => exact increasing_of_sublist (loops_sublist c ids)
  case one_event => exact length_events c ids
  case explicit =>
    intro hfit
    rw [ofCandidates_of_fit hfit]
    refine ⟨fun i => mem_indices_explicit, rfl, rfl, ?_⟩
    show ids.length = (explicit c ids).length + _
    rw [← List.length_map SelectedLoop.candidateIndex, indices_explicit hids, Nat.add_comm]
    exact List.length_eq_length_filter_add _
  case automatic =>
    intro hnone
    rw [ofCandidates_of_no_fit hnone]
    refine ⟨indices_automatic c, rfl, fun k l hk hl => ?_, ?_, ?_⟩
    · rw [class_automatic hk, class_automatic hl]
    · simp [automatic_eq_nil]
    · apply List.filter_eq_self.mpr
      intro i hi
      exact decide_eq_true (hnone i hi)
  case sorted_unmatched =>
    rw [unmatchedIds_ofCandidates]
    exact hids.filter _
  case mem_unmatched =>
    intro i
    rw [unmatchedIds_ofCandidates, List.mem_filter, decide_eq_true_eq]

/-- Nothing is selected in a function that is no kernel, and the selection in a kernel follows
the policy. -/
theorem selection_policy {beta : Type} (config : TargetConfig) (name : String)
    (code : Code beta) (forest : LoopForest beta) :
    (config.isKernel name = false -> ofForest config name code forest = empty) ∧
    forall ids, config.kernels.loopIds? name = some ids -> ids.Pairwise (· < ·) ∧
      (ofForest config name code forest).Follows (Candidates.ofForest config code forest) ids
        (Candidates.classUnder config code forest) := by
  constructor
  · intro hkernel
    have hnone : config.kernels.loopIds? name = none :=
      Option.isNone_iff_eq_none.mp (Option.isSome_eq_false_iff.mp hkernel)
    unfold ofForest
    rw [hnone]
  · intro ids hids
    have hsorted := KernelTargets.sorted_loopIds? hids
    unfold ofForest
    rw [hids]
    exact ⟨hsorted, follows_ofCandidates hsorted fun i id => Candidates.classUnder_of_number⟩

end Selection
end LoopNest
