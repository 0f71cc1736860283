import LoopNest.Proofs.Flow.NaturalLoops
import LoopNest.Proofs.Flow.Regions
import LoopNest.Proofs.Flow.Shapes
import LoopNest.Proofs.Forest.Preorder
import LoopNest.Selection

/-!
# Classes of loops

The class of a loop is decided by the blocks that are charged to it, and so is a selection.

A vector use counts for the innermost loop around its block.  With sub-loops included it counts
for all loops around the block: the body of a loop is made up of the own blocks of the loops at
and below it, so its class is vectorized exactly when one of their own classes is.
-/

namespace LoopNest

def Instruction.TouchesVector (i : Instruction) : Prop :=
  i.result.isVector = true ∨ exists type, type ∈ i.operands ∧ type.isVector = true

theorem Instruction.isSome_vectorRole? {i : Instruction} :
    i.vectorRole?.isSome = true <-> i.TouchesVector := by
  unfold vectorRole? TouchesVector
  by_cases hresult : i.result.isVector = true
  · simp [hresult]
  · rw [if_neg hresult, ← List.any_eq_true]
    cases i.operands.any ValueType.isVector with
    | true => simp
    | false => simp [hresult]

namespace Code

variable {beta : Type} {code : Code beta} {forest : LoopForest beta} {scope : ClassifyScope}
  {blocks : List beta} {i : LoopId}

theorem hasVector_iff :
    code.hasVector blocks = true <->
      exists b, b ∈ blocks ∧ exists x, x ∈ code.instructions b ∧ x.TouchesVector := by
  simp only [hasVector, vectorUse?, vectorUseIn?, List.isSome_findSome?, List.any_eq_true,
    Option.isSome_map, Instruction.isSome_vectorRole?]

theorem classify_eq_vectorized :
    code.classify scope forest i = .vectorized <->
      exists b, b ∈ forest.inspected scope i ∧
        exists x, x ∈ code.instructions b ∧ x.TouchesVector := by
  rw [classify, classOf, ← hasVector_iff]
  cases code.hasVector (forest.inspected scope i) with
  | true => simp
  | false => simp

theorem classify_eq_scalar :
    code.classify scope forest i = .scalar <-> ¬ code.classify scope forest i = .vectorized := by
  cases code.classify scope forest i with
  | vectorized => simp
  | scalar => simp

end Code

namespace LoopForest

variable {beta : Type} {forest : LoopForest beta} {scope : ClassifyScope} {i j : LoopId} {b : beta}

theorem mem_inspected :
    b ∈ forest.inspected scope i <-> exists l, forest.get? i = some l ∧ b ∈ l.inspected scope := by
  unfold inspected
  cases forest.get? i with
  | none => simp
  | some l => simp

section

variable [DecidableEq beta] (h : forest.Nested) (hp : forest.Partitioned)
include h hp

/-- A body holds the bodies of its sub-loops. -/
theorem inspected_of_parent (hparent : forest.parent? j = some i)
    (hb : b ∈ forest.inspected .withSubLoops j) : b ∈ forest.inspected .withSubLoops i := by
  rcases mem_inspected.mp hb with ⟨k, hk, hbk⟩
  have hsub := h.mem_subLoops_iff.mpr hparent
  unfold subLoops at hsub
  cases hi : forest.get? i with
  | none =>
      rw [hi] at hsub
      cases hsub
  | some l =>
      rw [hi] at hsub
      have hbl := (hp.mem_blocks i l hi b).mpr (Or.inr ⟨j, k, hsub, hk, hbk⟩)
      exact mem_inspected.mpr ⟨l, hi, hbl⟩

theorem inspected_of_ancestor {levels : Nat} (hj : forest.ancestor? levels j = some i)
    (hb : b ∈ forest.inspected .ownBlocks j) : b ∈ forest.inspected .withSubLoops i := by
  induction levels generalizing i with
  | zero =>
      cases hj
      rcases mem_inspected.mp hb with ⟨l, hl, hown⟩
      exact mem_inspected.mpr ⟨l, hl, (hp.own_sublist j l hl).subset hown⟩
  | succ levels ih =>
      rcases Option.bind_eq_some_iff.mp hj with ⟨k, hk, hparent⟩
      exact inspected_of_parent h hp hparent (ih hk)

/-- Every block of a body is an own block of the loop or of a loop below it.  The sub-loop that
holds it has a greater number, so this is an induction on how many loops follow. -/
theorem exists_owner_below (hb : b ∈ forest.inspected .withSubLoops i) :
    exists j levels, forest.ancestor? levels j = some i ∧ b ∈ forest.inspected .ownBlocks j := by
  induction hcount : forest.size - i using Nat.strongRecOn generalizing i with
  | ind count ih =>
      rcases mem_inspected.mp hb with ⟨l, hl, hbl⟩
      rcases (hp.mem_blocks i l hl b).mp hbl with hown | ⟨j, k, hj, hk, hbk⟩
      · exact ⟨i, 0, rfl, mem_inspected.mpr ⟨l, hl, hown⟩⟩
      · have hparent : forest.parent? j = some i :=
          parent?_eq_some.mpr ((h.mem_subLoops i l hl j).mp hj)
        have hfewer : forest.size - j < count := by
          have hlt := h.parent?_lt hparent
          have hsize := lt_size_of_get? hl
          lia
        rcases ih _ hfewer (mem_inspected.mpr ⟨k, hk, hbk⟩) rfl with ⟨o, levels, ho, hbo⟩
        refine ⟨o, levels + 1, ?_, hbo⟩
        rw [ancestor?, ho]
        exact hparent

/-- A body is made up of the own blocks of the loops at and below it. -/
theorem mem_inspected_withSubLoops :
    b ∈ forest.inspected .withSubLoops i <->
      exists j levels, forest.ancestor? levels j = some i ∧
        b ∈ forest.inspected .ownBlocks j := by
  constructor
  · exact exists_owner_below h hp
  · rintro ⟨j, levels, hj, hb⟩
    exact inspected_of_ancestor h hp hj hb

theorem classify_withSubLoops (code : Code beta) (i : LoopId) :
    code.classify .withSubLoops forest i = .vectorized <->
      exists j levels, forest.ancestor? levels j = some i ∧
        code.classify .ownBlocks forest j = .vectorized := by
  simp only [Code.classify_eq_vectorized, mem_inspected_withSubLoops h hp]
  constructor
  · rintro ⟨b, ⟨j, levels, hj, hb⟩, huse⟩
    exact ⟨j, levels, hj, b, hb, huse⟩
  · rintro ⟨j, levels, hj, b, hb, huse⟩
    exact ⟨b, ⟨j, levels, hj, hb⟩, huse⟩

end

end LoopForest

namespace FlowGraph

variable {n : Nat} (g : FlowGraph n)

theorem mem_inspected_ownBlocks {i : LoopId} {b : Fin n} :
    b ∈ g.forest.inspected .ownBlocks i <-> g.Reachable b ∧ g.forest.loopFor? b = some i := by
  have hpartitioned : g.forest.Partitioned :=
    LoopForest.Partitioned.map g.separates_blockAt g.laminar_loops.partitioned_forest
  rw [LoopForest.mem_inspected, hpartitioned.loopFor_eq_some b i]
  constructor
  · rintro ⟨l, hl, hb⟩
    have hblocks := (hpartitioned.own_sublist i l hl).subset hb
    exact ⟨((mem_blocks_iff hl).mp hblocks).1, l, hl, hb⟩
  · exact fun hcase => hcase.2

/-- In every graph a loop is vectorized by its own blocks exactly when a reachable block whose
innermost loop it is holds an instruction that touches a vector.  With its sub-loops it is
vectorized exactly when it or a loop some levels below it is vectorized by its own blocks.  Else
it is scalar. -/
theorem vector_uses_charged (code : Code (Fin n)) (i : LoopId) :
    (code.classify .ownBlocks g.forest i = .vectorized <->
      exists b, (g.Reachable b ∧ g.forest.loopFor? b = some i) ∧
        exists x, x ∈ code.instructions b ∧ x.TouchesVector) ∧
    (code.classify .withSubLoops g.forest i = .vectorized <->
      exists j levels, g.forest.ancestor? levels j = some i ∧
        code.classify .ownBlocks g.forest j = .vectorized) ∧
    forall scope, code.classify scope g.forest i = .scalar <->
      ¬ code.classify scope g.forest i = .vectorized := by
  have hnested : g.forest.Nested :=
    LoopForest.Nested.map g.separates_blockAt g.laminar_loops.nested_forest
  have hpartitioned : g.forest.Partitioned :=
    LoopForest.Partitioned.map g.separates_blockAt g.laminar_loops.partitioned_forest
  refine ⟨?_, LoopForest.classify_withSubLoops hnested hpartitioned code i, ?_⟩
  · simp only [Code.classify_eq_vectorized, mem_inspected_ownBlocks]
  · exact fun scope => Code.classify_eq_scalar

end FlowGraph

/-!
## Functions that select alike

Selection reads the code of a function through one question for each block of a loop: does it
hold an instruction that touches a vector?  Two functions of one shape whose answers agree in
their loops have the same candidates and the same selection, whatever else their code holds.
-/

namespace Code

variable {beta gamma : Type} {code : Code beta} {code' : Code gamma} {forest : LoopForest beta}
  {p : beta -> gamma}

def UsesVector (code : Code beta) (b : beta) : Prop :=
  exists x, x ∈ code.instructions b ∧ x.TouchesVector

instance (code : Code beta) : DecidablePred code.UsesVector := fun b =>
  decidable_of_iff (code.hasVector [b] = true) (by simp [hasVector_iff, UsesVector])

/-- The blocks of the loops of a forest, renamed by `p`, use vectors in `code'` where they do in
`code`. -/
def AgreesIn (code : Code beta) (code' : Code gamma) (forest : LoopForest beta)
    (p : beta -> gamma) : Prop :=
  forall b, forest.Covers b -> (code.UsesVector b <-> code'.UsesVector (p b))

theorem hasVector_map {blocks : List beta}
    (h : forall b, b ∈ blocks -> (code.UsesVector b <-> code'.UsesVector (p b))) :
    code'.hasVector (blocks.map p) = code.hasVector blocks := by
  rw [Bool.eq_iff_iff, hasVector_iff, hasVector_iff]
  constructor
  · intro hcase
    rcases hcase with ⟨c, hc, huse⟩
    rcases List.mem_map.mp hc with ⟨b, hb, rfl⟩
    exact ⟨b, hb, (h b hb).mpr huse⟩
  · intro hcase
    rcases hcase with ⟨b, hb, huse⟩
    exact ⟨p b, List.mem_map_of_mem hb, (h b hb).mp huse⟩

end Code

namespace LoopForest

variable {beta gamma : Type} {forest : LoopForest beta} {scope : ClassifyScope} {i : LoopId}
  {b : beta}

theorem inspected_map (forest : LoopForest beta) (p : beta -> gamma) (scope : ClassifyScope)
    (i : LoopId) : (forest.map p).inspected scope i = (forest.inspected scope i).map p := by
  unfold inspected
  rw [get?_map]
  cases forest.get? i with
  | none => rfl
  | some l =>
      cases scope with
      | ownBlocks => rfl
      | withSubLoops => rfl

/-- Either scope looks at blocks of loops only. -/
theorem Partitioned.covers_of_inspected [DecidableEq beta] (h : forest.Partitioned)
    (hb : b ∈ forest.inspected scope i) : forest.Covers b := by
  rcases mem_inspected.mp hb with ⟨l, hl, hmem⟩
  cases scope with
  | ownBlocks => exact ⟨i, l, hl, (h.own_sublist i l hl).subset hmem⟩
  | withSubLoops => exact ⟨i, l, hl, hmem⟩

end LoopForest

theorem Candidates.discovered_map {beta gamma : Type} (config : TargetConfig)
    (forest : LoopForest beta) (p : beta -> gamma) :
    discovered config (forest.map p) = discovered config forest := by
  unfold discovered
  simp only [LoopForest.subLoops_map]
  rfl

/-!
### Classes, candidates, selections
-/

section

variable {beta gamma : Type} [DecidableEq beta] {forest : LoopForest beta} {p : beta -> gamma}
  {code : Code beta} {code' : Code gamma}

theorem Code.AgreesIn.classify_eq (hagree : code.AgreesIn code' forest p)
    (h : forest.Partitioned) (scope : ClassifyScope) (i : LoopId) :
    code'.classify scope (forest.map p) i = code.classify scope forest i := by
  have hvector : code'.hasVector ((forest.inspected scope i).map p) =
      code.hasVector (forest.inspected scope i) :=
    Code.hasVector_map fun b hb => hagree b (h.covers_of_inspected hb)
  unfold Code.classify Code.classOf
  rw [LoopForest.inspected_map, hvector]

theorem Code.AgreesIn.candidates_eq (hagree : code.AgreesIn code' forest p)
    (h : forest.Partitioned) (config : TargetConfig) :
    Candidates.ofForest config code' (forest.map p) = Candidates.ofForest config code forest := by
  have hclass : Candidates.classUnder config code' (forest.map p) =
      Candidates.classUnder config code forest :=
    funext (hagree.classify_eq h config.scope)
  unfold Candidates.ofForest
  rw [hclass, Candidates.discovered_map]

end

namespace FlowGraph

variable {n m : Nat} {g : FlowGraph n} {k : FlowGraph m} {p : Fin n -> Fin m}

/-- Two functions of one shape that use vectors in the same blocks of loops have the same
candidates and the same selection under every configuration. -/
theorem selection_of_agreement {code : Code (Fin n)} {code' : Code (Fin m)} (h : g.SameShape k p)
    (hagree : code.AgreesIn code' g.forest p) (config : TargetConfig) (name : String) :
    Candidates.ofForest config code' k.forest = Candidates.ofForest config code g.forest ∧
      Selection.ofForest config name code' k.forest =
        Selection.ofForest config name code g.forest := by
  have hpartitioned : g.forest.Partitioned :=
    LoopForest.Partitioned.map g.separates_blockAt g.laminar_loops.partitioned_forest
  have hcandidates := hagree.candidates_eq hpartitioned config
  rw [h.forest_eq]
  refine ⟨hcandidates, ?_⟩
  unfold Selection.ofForest
  rw [hcandidates]

/-!
### Two functions that agree
-/

theorem exists_succ_of_covers {b : Fin n} (hb : g.forest.Covers b) : exists c, c ∈ g.succs b := by
  rcases hb with ⟨i, l, hl, hmem⟩
  rcases exists_governed hl hmem with ⟨bs, hclosed, hbs, _⟩
  rcases hclosed.rotate hbs with ⟨cs, ⟨hwalk, hlen⟩, _⟩
  cases hwalk with
  | stay => simp at hlen
  | step hedge _ => exact ⟨_, hedge⟩

/-- Code for `nestGraph`: the inner loop stores a vector. -/
def storingCode : Code (Fin 5) where
  blockName b := ["entry", "outer", "inner", "latch", "exit"][b]
  instructions b :=
    [[], [⟨"add", .scalar, [.scalar, .scalar]⟩], [⟨"store", .void, [.scalar, .vector 4]⟩], [],
      [⟨"ret", .void, []⟩]][b]

/-- Code for `shuffledGraph`: the inner loop loads vectors, of other lengths, and there are
vectors behind the loops and in the unreachable block. -/
def loadingCode : Code (Fin 6) where
  blockName _ := "b"
  instructions b :=
    [[⟨"phi", .scalar, []⟩, ⟨"load", .vector 2, [.scalar]⟩, ⟨"add", .vector 16, [.vector 2]⟩],
      [⟨"reduce", .scalar, [.vector 8]⟩], [], [⟨"splat", .vector 8, []⟩],
      [⟨"call", .aggregate, [.label]⟩], []][b]

theorem selection_loadingCode :
    nestGraph.SameShape shuffledGraph shuffle ∧
      storingCode.AgreesIn loadingCode nestGraph.forest shuffle ∧
      let config := { TargetConfig.standard.addKernel "f" [1] with targetNested := true }
      Candidates.ofForest config loadingCode shuffledGraph.forest =
          Candidates.ofForest config storingCode nestGraph.forest ∧
        Selection.ofForest config "f" loadingCode shuffledGraph.forest =
          Selection.ofForest config "f" storingCode nestGraph.forest := by
  have hagree : storingCode.AgreesIn loadingCode nestGraph.forest shuffle := by
    have hblocks : forall b, nestGraph.succs b ≠ [] ->
        (storingCode.UsesVector b <-> loadingCode.UsesVector (shuffle b)) := by
      decide
    intro b hb
    rcases exists_succ_of_covers hb with ⟨c, hc⟩
    exact hblocks b (List.ne_nil_of_mem hc)
  exact ⟨sameShape_shuffle, hagree, selection_of_agreement sameShape_shuffle hagree _ "f"⟩

end FlowGraph

end LoopNest
