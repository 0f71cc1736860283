import LoopNest.Proofs.Flow.Dominance
import LoopNest.Proofs.Flow.NaturalLoops
import LoopNest.Proofs.Tir.Language
import LoopNest.Tir.Session
import Mathlib.Data.List.Permutation

/-!
# Sessions

The graphs of functions, and what a session shows after any calls.
-/

namespace LoopNest
namespace Tir
namespace Module

/-!
## Graphs of functions

The graph of a function lies among the blocks of all functions of its module.  In a
well-formed module control does not leave the blocks of the function, and there the name of
a block tells which block it is.
-/

variable {m : Module} {f : Function} {b c : m.BlockIn} {g : FlowGraph m.blockCount} {i : Nat}

/-!
### Blocks by position
-/

theorem block?_eq_some : m.block? i = some b <-> b.val = i := by
  unfold block?
  split
  · rw [Option.some_inj, Fin.ext_iff, eq_comm]
  · rename_i hi
    constructor
    · intro hb
      cases hb
    · intro hb
      exact absurd (hb ▸ b.isLt) hi

theorem mem_filterMap_block {positions : List Nat} :
    b ∈ positions.filterMap m.block? <-> b.val ∈ positions := by
  simp [block?_eq_some]

theorem mem_successors :
    c ∈ m.successors b <-> c.val ∈ m.blocks[b].successors.slice m.blockSuccessors :=
  mem_filterMap_block

theorem mem_blocksOf : b ∈ m.blocksOf f <-> f.blocks.start ≤ b.val ∧ b.val < f.blocks.stop := by
  refine mem_filterMap_block.trans (List.mem_range'_1.trans ?_)
  lia

theorem mem_bodyOf (hb : b ∈ m.blocksOf f) : m.blocks[b] ∈ m.bodyOf f := by
  rcases mem_blocksOf.mp hb with ⟨hstart, hstop⟩
  apply List.mem_of_getElem? (i := b.val - f.blocks.start)
  exact (Span.getElem?_slice_sub hstart hstop).trans (List.getElem?_eq_getElem b.isLt)

theorem graph?_eq_some (hg : m.graph? f = some g) :
    g.entry ∈ m.blocksOf f ∧ g.succs = m.successors := by
  unfold graph? at hg
  cases hblocks : m.blocksOf f with
  | nil =>
      rw [hblocks] at hg
      cases hg
  | cons entry rest =>
      rw [hblocks] at hg
      cases hg
      exact ⟨List.mem_cons_self, rfl⟩

namespace WellFormed

variable (h : m.WellFormed) (hf : f ∈ m.functions)
include h hf

theorem exists_graph (hbody : f.isDeclaration = false) : exists g, m.graph? f = some g := by
  have hne : f.blocks.start ≠ f.blocks.stop := by
    intro heq
    have hdeclaration := (h.sound f hf).declaration.mpr heq
    rw [hbody] at hdeclaration
    cases hdeclaration
  have hle := (h.blocks_tiled.bounds (List.mem_map_of_mem hf)).2.1
  have hlt : f.blocks.start < m.blockCount :=
    Nat.lt_of_lt_of_le (Nat.lt_of_le_of_ne hle hne) (h.covers hf).blocks
  have hentry : (⟨f.blocks.start, hlt⟩ : m.BlockIn) ∈ m.blocksOf f :=
    mem_blocksOf.mpr ⟨le_refl _, Nat.lt_of_le_of_ne hle hne⟩
  unfold graph?
  cases hblocks : m.blocksOf f with
  | nil =>
      rw [hblocks] at hentry
      cases hentry
  | cons entry rest => exact ⟨_, rfl⟩

/-!
### Control stays in the function
-/

theorem successors_subset (hb : b ∈ m.blocksOf f) (hc : c ∈ m.successors b) :
    c ∈ m.blocksOf f := by
  apply mem_blocksOf.mpr
  exact (h.sound f hf).successors _ (mem_bodyOf hb) c.val (mem_successors.mp hc)

theorem mem_of_reachable (hg : m.graph? f = some g) (hb : g.Reachable b) : b ∈ m.blocksOf f := by
  rcases graph?_eq_some hg with ⟨hentry, hsuccs⟩
  have hclosed : forall c d, c ∈ m.blocksOf f -> d ∈ g.succs c -> d ∈ m.blocksOf f := by
    intro c d hc hd
    rw [hsuccs] at hd
    exact h.successors_subset hf hc hd
  rcases hb with ⟨bs, hwalk⟩
  exact hwalk.closed hclosed hentry

/-!
### Names of blocks
-/

theorem eq_of_name (hb : b ∈ m.blocksOf f) (hc : c ∈ m.blocksOf f)
    (heq : m.code.blockName b = m.code.blockName c) : b = c := by
  have hname : forall d : m.BlockIn, m.blockName d.val = m.code.blockName d := by
    intro d
    rw [blockName, List.getElem?_eq_getElem d.isLt]
    rfl
  apply Fin.ext
  apply h.eq_of_blockName hf (mem_blocksOf.mp hb) (mem_blocksOf.mp hc)
  rw [hname b, hname c, heq]

theorem separates_names (hg : m.graph? f = some g) : g.forest.Separates m.code.blockName := by
  intro i j k l hk hl b c hb hc heq
  have hreach := ((FlowGraph.mem_blocks_iff hk).mp hb).1
  have hreach' := ((FlowGraph.mem_blocks_iff hl).mp hc).1
  exact h.eq_of_name hf (h.mem_of_reachable hf hg hreach) (h.mem_of_reachable hf hg hreach') heq

end WellFormed

end Module
end Tir
end LoopNest

namespace LoopNest
namespace Tir

/-!
## Sessions that never answer from an old function

A session moves between functions and analyzes them in any order, and it goes on when a step
fails.  What it answers is fixed by the last call that asked for an analysis: it answers as a
session that has done nothing else, or not at all.
-/

def Module.Defines (m : Module) (f : Nat) : Prop :=
  exists function, m.functions[f]? = some function ∧ function.isDeclaration = false

namespace Session

variable {m : Module}

/-!
### Calls
-/

/-- A call that changes a session. -/
inductive Call where
  | moveTo (f : Nat)
  | switch (f : Nat)
  | analyze
  deriving DecidableEq, Repr

def Call.isMove : Call -> Bool
  | .moveTo _ => true
  | .switch _ => false
  | .analyze => false

/-- What a call answers, and the session after it. -/
def call (s : Session m) : Call -> Except SessionFault Unit × Session m
  | .moveTo f => ((s.moveTo f).1.map fun _ => (), (s.moveTo f).2)
  | .switch f => s.switch f
  | .analyze => s.analyze

def run (s : Session m) : List Call -> Session m
  | [] => s
  | c :: calls => run (s.call c).2 calls

/-- The function that a call asks to analyze. -/
def subject? (s : Session m) : Call -> Option Nat
  | .moveTo _ => none
  | .switch f => some f
  | .analyze => some s.current

/-!
### Answers
-/

def idomAt (s : Session m) (b : Nat) : Option m.BlockIn :=
  (m.block? b).bind s.analysis.idom?

def dominatesAt (s : Session m) (b c : Nat) : Bool :=
  match m.block? b, m.block? c with
  | some b, some c => s.analysis.dominates b c
  | _, _ => false

/-- Both sessions give the same answers. -/
structure AnswersAs (s t : Session m) : Prop where
  order : s.analysis.order = t.analysis.order
  idom : forall b, s.idomAt b = t.idomAt b
  dominates : forall b c, s.dominatesAt b c = t.dominatesAt b c
  forest : s.forest = t.forest

/-- The session knows no block. -/
structure Silent (s : Session m) : Prop where
  order : s.analysis.order = []
  idom : forall b, s.idomAt b = none
  dominates : forall b c, s.dominatesAt b c = false

variable {s t : Session m} {c : Call} {calls : List Call} {f : Nat}

theorem AnswersAs.of_eq (hanalysis : s.analysis = t.analysis) (hforest : s.forest = t.forest) :
    s.AnswersAs t where
  order := by rw [hanalysis]
  idom := by
    intro b
    rw [idomAt, idomAt, hanalysis]
  dominates := by
    intro b c
    rw [dominatesAt, dominatesAt, hanalysis]
  forest := hforest

theorem Silent.of_order_nil (h : s.analysis.order = []) : s.Silent where
  order := h
  idom := by
    intro b
    unfold idomAt
    cases m.block? b with
    | none => rfl
    | some b => exact Analysis.idom?_of_order_nil h b
  dominates := by
    intro b c
    unfold dominatesAt
    split
    · exact Analysis.dominates_of_order_nil h _ _
    · rfl

/-!
### Moves
-/

theorem moveTo_eq (s : Session m) (f : Nat) : (s.moveTo f).2 = { s with current := f } := by
  unfold moveTo
  cases m.functions[f]? with
  | none => rfl
  | some function => rfl

theorem call_move (hc : c.isMove = true) :
    (s.call c).2.analysis = s.analysis ∧ (s.call c).2.forest = s.forest := by
  cases c with
  | moveTo f =>
      rw [call, moveTo_eq]
      exact ⟨rfl, rfl⟩
  | switch f => cases hc
  | analyze => cases hc

theorem run_moves (h : forall c, c ∈ calls -> c.isMove = true) :
    (s.run calls).analysis = s.analysis ∧ (s.run calls).forest = s.forest := by
  induction calls generalizing s with
  | nil => exact ⟨rfl, rfl⟩
  | cons c calls ih =>
      rw [List.forall_mem_cons] at h
      rcases call_move (s := s) h.1 with ⟨hanalysis, hforest⟩
      rcases ih (s := (s.call c).2) h.2 with ⟨hanalysis', hforest'⟩
      exact ⟨hanalysis'.trans hanalysis, hforest'.trans hforest⟩

theorem run_append (s : Session m) (before after : List Call) :
    s.run (before ++ after) = (s.run before).run after := by
  induction before generalizing s with
  | nil => rfl
  | cons c before ih => exact ih _

/-!
### What an analysis leaves
-/

section

variable {function : Function} {g : FlowGraph m.blockCount}

theorem analyze_none (hf : m.functions[s.current]? = none) :
    s.analyze = (.error .noFunction, s.dropOrder) := by
  simp only [analyze, hf]

theorem analyze_no_body (hf : m.functions[s.current]? = some function)
    (hg : m.graph? function = none) : s.analyze = (.error .noBody, s.dropOrder) := by
  simp only [analyze, hf, hg]

theorem analyze_graph (hf : m.functions[s.current]? = some function)
    (hg : m.graph? function = some g) :
    s.analyze = (.ok (), ⟨s.current, g.analyze, g.forest⟩) := by
  simp only [analyze, hf, hg]

theorem switch_none (hf : m.functions[f]? = none) :
    s.switch f = (.error .noFunction, ⟨f, .empty, s.forest⟩) := by
  simp only [switch, moveTo, hf]

theorem switch_declaration (hf : m.functions[f]? = some function)
    (hdeclaration : function.isDeclaration = true) :
    s.switch f = (.ok (), ⟨f, .empty, .empty⟩) := by
  simp only [switch, moveTo, hf, hdeclaration, Bool.not_true]

theorem switch_body (hf : m.functions[f]? = some function)
    (hbody : function.isDeclaration = false) :
    s.switch f = analyze ⟨f, .empty, s.forest⟩ := by
  simp only [switch, moveTo, hf, hbody, Bool.not_false]

theorem graph?_of_declaration (h : m.WellFormed) (hf : function ∈ m.functions)
    (hdeclaration : function.isDeclaration = true) : m.graph? function = none := by
  have hempty := (h.sound function hf).declaration.mp hdeclaration
  have hblocks : m.blocksOf function = [] := by
    apply List.eq_nil_iff_forall_not_mem.mpr
    intro b hb
    rcases Module.mem_blocksOf.mp hb with ⟨hstart, hstop⟩
    lia
  rw [Module.graph?, hblocks]

/-- A call that asks for a function with a body succeeds, and nothing of the session before it
is left. -/
theorem call_of_graph (hf : m.functions[f]? = some function)
    (hbody : function.isDeclaration = false) (hg : m.graph? function = some g)
    (hc : s.subject? c = some f) : s.call c = (.ok (), ⟨f, g.analyze, g.forest⟩) := by
  cases c with
  | moveTo k => cases hc
  | switch k =>
      cases hc
      rw [call, switch_body hf hbody, analyze_graph hf hg]
  | analyze =>
      cases hc
      rw [call, analyze_graph hf hg]

/-- A call that asks for a function without a body, or for none, leaves no order behind. -/
theorem call_of_not_defines (h : m.WellFormed) (hf : ¬ m.Defines f)
    (hc : s.subject? c = some f) : (s.call c).2.analysis.order = [] := by
  cases hfunction : m.functions[f]? with
  | none =>
      cases c with
      | moveTo k => cases hc
      | switch k =>
          cases hc
          rw [call, switch_none hfunction]
          rfl
      | analyze =>
          cases hc
          rw [call, analyze_none hfunction]
          rfl
  | some function =>
      have hdeclaration : function.isDeclaration = true := by
        rw [← Bool.not_eq_false]
        exact fun hbody => hf ⟨function, hfunction, hbody⟩
      cases c with
      | moveTo k => cases hc
      | switch k =>
          cases hc
          rw [call, switch_declaration hfunction hdeclaration]
          rfl
      | analyze =>
          cases hc
          have hg := graph?_of_declaration h (List.mem_of_getElem? hfunction) hdeclaration
          rw [call, analyze_no_body hfunction hg]
          rfl

end

/-!
### Tables
-/

theorem inBounds_analyze (s : Session m) : s.analyze.2.analysis.InBounds := by
  cases hf : m.functions[s.current]? with
  | none =>
      rw [analyze_none hf]
      exact Analysis.inBounds_of_order_nil rfl
  | some function =>
      cases hg : m.graph? function with
      | none =>
          rw [analyze_no_body hf hg]
          exact Analysis.inBounds_of_order_nil rfl
      | some g =>
          rw [analyze_graph hf hg]
          exact g.inBounds_analyze

theorem inBounds_switch (s : Session m) (f : Nat) : (s.switch f).2.analysis.InBounds := by
  cases hf : m.functions[f]? with
  | none =>
      rw [switch_none hf]
      exact Analysis.inBounds_of_order_nil rfl
  | some function =>
      cases hbody : function.isDeclaration with
      | true =>
          rw [switch_declaration hf hbody]
          exact Analysis.inBounds_of_order_nil rfl
      | false =>
          rw [switch_body hf hbody]
          exact inBounds_analyze _

theorem inBounds_call (h : s.analysis.InBounds) (c : Call) : (s.call c).2.analysis.InBounds := by
  cases c with
  | moveTo f =>
      rw [(call_move rfl).1]
      exact h
  | switch f => exact inBounds_switch s f
  | analyze => exact inBounds_analyze s

theorem inBounds_run (h : s.analysis.InBounds) (calls : List Call) :
    (s.run calls).analysis.InBounds := by
  induction calls generalizing s with
  | nil => exact h
  | cons c calls ih => exact ih (inBounds_call h c)

/-!
### The last call decides
-/

/-- After any calls on a module that a text stands for, the last call that asked for an analysis
decides.  If it asked for a function with a body, it succeeded and the session answers as a new
one that is switched to this function.  Otherwise, or without such a call, the session is silent.
In every case its questions are answered inside the tables. -/
theorem last_analysis_decides {text : String} (h : Module.parse text = .ok m)
    (calls : List Call) :
    (forall before c after, calls = before ++ c :: after ->
      (forall d, d ∈ after -> d.isMove = true) ->
      forall f, ((start m).run before).subject? c = some f ->
        (m.Defines f ->
          (((start m).run before).call c).1 = .ok () ∧
          (((start m).run before).call c).2.forest = ((start m).switch f).2.forest ∧
          ((start m).run calls).AnswersAs ((start m).switch f).2) ∧
        (¬ m.Defines f ∨ (exists fault, (((start m).run before).call c).1 = .error fault) ->
          ((start m).run calls).Silent)) ∧
    ((forall c, c ∈ calls -> c.isMove = true) -> ((start m).run calls).Silent) ∧
    ((start m).run calls).analysis.InBounds := by
  have hwell : m.WellFormed := by
    rcases Module.parse_eq_ok.mp h with ⟨fs, hread, rfl⟩
    exact (Module.wellFormed_of_readDrafts hread).1
  have hstart : (start m).analysis.order = [] := rfl
  refine ⟨?_, ?_, inBounds_run (Analysis.inBounds_of_order_nil hstart) calls⟩
  · rintro before c after rfl hafter f hsubject
    rw [run_append]
    generalize (start m).run before = s at hsubject
    rcases run_moves (s := (s.call c).2) hafter with ⟨hanalysis, hforest⟩
    constructor
    · rintro ⟨function, hfunction, hbody⟩
      rcases hwell.exists_graph (List.mem_of_getElem? hfunction) hbody with ⟨g, hg⟩
      have hcall := call_of_graph hfunction hbody hg hsubject
      have hnew := call_of_graph (s := start m) (c := .switch f) hfunction hbody hg rfl
      rw [call] at hnew
      rw [hnew]
      refine ⟨by rw [hcall], by rw [hcall], AnswersAs.of_eq ?_ ?_⟩
      · exact hanalysis.trans (by rw [hcall])
      · exact hforest.trans (by rw [hcall])
    · intro hcase
      have hf : ¬ m.Defines f := by
        rintro ⟨function, hfunction, hbody⟩
        rcases hwell.exists_graph (List.mem_of_getElem? hfunction) hbody with ⟨g, hg⟩
        rw [call_of_graph hfunction hbody hg hsubject] at hcase
        rcases hcase with hnot | ⟨fault, hfault⟩
        · exact hnot ⟨function, hfunction, hbody⟩
        · cases hfault
      apply Silent.of_order_nil
      rw [run, hanalysis]
      exact call_of_not_defines hwell hf hsubject
  · intro hmoves
    apply Silent.of_order_nil
    rw [(run_moves hmoves).1]
    exact hstart

/-- A failed analysis of the declaration silences the session; a later switch to the function
with a body makes it answer again, also after a move to no function. -/
theorem last_analysis_decides_countModule :
    let silenced := [Call.switch 1, .moveTo 0, .analyze]
    let revived := silenced ++ [Call.switch 9, .switch 1, .moveTo 7]
    ((start Module.countModule).run silenced).Silent ∧
      ((start Module.countModule).run revived).AnswersAs
        ((start Module.countModule).switch 1).2 ∧
      ((start Module.countModule).run revived).analysis.order.length = 2 := by
  intro silenced revived
  have hparse : Module.parse Module.countText = .ok Module.countModule := by decide +kernel
  have hmoves : forall d, d ∈ [Call.moveTo 7] -> d.isMove = true := by decide
  have hsilenced := (last_analysis_decides hparse silenced).1 [.switch 1, .moveTo 0] .analyze []
    rfl (by simp) 0 rfl
  have hrevived := (last_analysis_decides hparse revived).1 (silenced ++ [.switch 9]) (.switch 1)
    [.moveTo 7] rfl hmoves 1 rfl
  refine ⟨hsilenced.2 (Or.inr ⟨.noBody, by rfl⟩), (hrevived.1 ⟨_, rfl, rfl⟩).2.2, ?_⟩
  cbv

end Session

end Tir
end LoopNest
