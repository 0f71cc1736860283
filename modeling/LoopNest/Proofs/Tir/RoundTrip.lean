import LoopNest.Proofs.Tir.Language
import LoopNest.Proofs.Tir.Writing

/-!
# Reading what was written

A module is written by turning positions back into names.  For a well-formed module that gives
functions whose names are in order and which say what the tables say; so their text stands for
the module, and the tables come back as they were.
-/

namespace LoopNest
namespace Tir
namespace Module

/-!
## From tables to functions
-/

def instructionDraft (m : Module) (targets : List String) (v : Value) : InstructionDraft where
  result := if v.name = "" then none else some ⟨v.name, v.type⟩
  opcode := v.opcode
  operands := (v.operands.slice m.valueOperands).map (fun i => .value (m.valueName i)) ++
    targets.map .block

/-- The instructions of a block.  The last one continues with the blocks `targets`. -/
def instructionDrafts (m : Module) (targets : List String) : List Value -> List InstructionDraft
  | [] => []
  | [v] => [m.instructionDraft targets v]
  | v :: w :: vs => m.instructionDraft [] v :: m.instructionDrafts targets (w :: vs)

def blockDraft (m : Module) (b : Block) : BlockDraft where
  label := b.name
  instructions := m.instructionDrafts ((b.successors.slice m.blockSuccessors).map m.blockName)
    (b.instructions.slice m.values)

def functionDraft (m : Module) (f : Function) : FunctionDraft where
  name := f.name
  arguments := (f.arguments.slice m.values).map fun v => ⟨v.name, v.type⟩
  body := if f.isDeclaration then none else some ((f.blocks.slice m.blocks).map m.blockDraft)

/-- The functions of a module with names in place of positions. -/
def drafts (m : Module) : List FunctionDraft :=
  m.functions.map m.functionDraft

/-- A text that stands for the module. -/
def text (m : Module) : String :=
  textOf m.drafts

end Module

/-!
## Names that an outline tells
-/

namespace FunctionDraft

theorem valueNames_eq_outline (f : FunctionDraft) :
    f.valueNames = f.outline.values.map ValueOutline.name := by
  simp only [valueNames, instructions, outline, FunctionOutline.values, List.map_append,
    List.map_map, List.flatMap_map, List.map_flatMap, BlockDraft.outline, Function.comp_def]
  rfl

theorem labels_eq_outline (f : FunctionDraft) :
    f.labels = f.outline.blocks.map BlockOutline.label := by
  rw [outline, List.map_map]
  rfl

theorem operands_eq_outline (f : FunctionDraft) :
    f.instructions.flatMap InstructionDraft.values =
      (f.outline.blocks.flatMap BlockOutline.instructions).flatMap ValueOutline.operands := by
  simp only [instructions, outline, List.flatMap_map, List.flatMap_assoc, BlockDraft.outline]
  rfl

theorem targets_eq_outline (f : FunctionDraft) :
    f.blocks.flatMap BlockDraft.targets = f.outline.blocks.flatMap BlockOutline.successors := by
  rw [outline, List.flatMap_map]
  rfl

end FunctionDraft

namespace Module

variable {m : Module} {f : Function} {b : Block} {v : Value} {targets : List String}
  {vs : List Value}

/-!
## Outlines of written functions
-/

theorem values_instructionDraft (m : Module) (targets : List String) (v : Value) :
    (m.instructionDraft targets v).values =
      (v.operands.slice m.valueOperands).map m.valueName := by
  simp [instructionDraft, InstructionDraft.values, List.filterMap_map]

theorem targets_instructionDraft (m : Module) (targets : List String) (v : Value) :
    (m.instructionDraft targets v).targets = targets := by
  simp [instructionDraft, InstructionDraft.targets, List.filterMap_map]

theorem outline_instructionDraft (hkind : v.kind = .instruction)
    (hvoid : v.name = "" -> v.type = .void) :
    (m.instructionDraft targets v).outline = m.valueOutline v := by
  rw [InstructionDraft.outline, values_instructionDraft, valueOutline, hkind]
  by_cases hname : v.name = ""
  · simp [instructionDraft, InstructionDraft.name, InstructionDraft.type, hname, hvoid hname]
  · simp [instructionDraft, InstructionDraft.name, InstructionDraft.type, hname]

theorem outline_instructionDrafts (hkinds : forall v, v ∈ vs -> v.kind = .instruction)
    (hvoid : forall v, v ∈ vs -> v.name = "" -> v.type = .void) :
    (m.instructionDrafts targets vs).map InstructionDraft.outline = vs.map m.valueOutline := by
  fun_induction instructionDrafts m targets vs with
  | case1 => rfl
  | case2 v =>
      rw [List.forall_mem_singleton] at hkinds hvoid
      rw [List.map_singleton, List.map_singleton, outline_instructionDraft hkinds hvoid]
  | case3 v w vs ih =>
      rw [List.forall_mem_cons] at hkinds hvoid
      rw [List.map_cons, List.map_cons, ih hkinds.2 hvoid.2,
        outline_instructionDraft hkinds.1 hvoid.1]

/-- The instructions of a block continue with its targets, if there is one. -/
theorem targets_instructionDrafts (hvs : vs ≠ []) :
    (m.instructionDrafts targets vs).flatMap InstructionDraft.targets = targets := by
  fun_induction instructionDrafts m targets vs with
  | case1 => exact absurd rfl hvs
  | case2 v => rw [List.flatMap_singleton, targets_instructionDraft]
  | case3 v w vs ih =>
      rw [List.flatMap_cons, targets_instructionDraft, ih (List.cons_ne_nil w vs),
        List.nil_append]

theorem mem_instructionDrafts {i : InstructionDraft}
    (hi : i ∈ m.instructionDrafts targets vs) :
    exists v, v ∈ vs ∧ exists names, names ⊆ targets ∧ i = m.instructionDraft names v := by
  fun_induction instructionDrafts m targets vs with
  | case1 => cases hi
  | case2 v =>
      exact ⟨v, List.mem_singleton_self v, targets, List.Subset.refl _, List.mem_singleton.mp hi⟩
  | case3 v w vs ih =>
      rcases List.mem_cons.mp hi with rfl | hi
      · exact ⟨v, List.mem_cons_self, [], List.nil_subset _, rfl⟩
      · rcases ih hi with ⟨u, hu, hrest⟩
        exact ⟨u, List.mem_cons_of_mem v hu, hrest⟩

section

variable (h : m.WellFormed) (hf : f ∈ m.functions)
include h hf

theorem WellFormed.successors_eq_nil (hb : b ∈ m.bodyOf f) (hempty : m.instructionsOf b = []) :
    b.successors.slice m.blockSuccessors = [] := by
  have hlength := Span.length_slice ((h.covers hf).instructions hb)
  rw [← instructionsOf, hempty, List.length_nil, Span.size] at hlength
  have hspan := List.mem_map_of_mem (f := Block.instructions) hb
  rcases h.valueSpans_tiled hf with ⟨start, stop, htiled⟩
  have hle := (htiled.bounds (List.mem_cons_of_mem f.arguments hspan)).2.1
  apply Span.slice_of_eq
  by_contra hne
  -- with a successor the block would have an instruction, but its run of values is empty
  have hinstructions := (h.sound f hf).branches b hb hne
  omega

theorem outline_blockDraft (hb : b ∈ m.bodyOf f) : (m.blockDraft b).outline = m.blockOutline b := by
  have hsound := h.sound f hf
  have hinstructions : (m.blockDraft b).instructions.map InstructionDraft.outline =
      (m.instructionsOf b).map m.valueOutline :=
    outline_instructionDrafts (fun v hv => (hsound.instructions b hb v hv).1)
      (hsound.unnamed b hb)
  have htargets : (m.blockDraft b).targets =
      (b.successors.slice m.blockSuccessors).map m.blockName := by
    by_cases hempty : m.instructionsOf b = []
    · rw [h.successors_eq_nil hf hb hempty, BlockDraft.targets, blockDraft, ← instructionsOf,
        hempty]
      rfl
    · exact targets_instructionDrafts hempty
  rw [BlockDraft.outline, htargets, hinstructions]
  rfl

theorem blocks_functionDraft : (m.functionDraft f).blocks = (m.bodyOf f).map m.blockDraft := by
  cases hdeclaration : f.isDeclaration with
  | false => simp [functionDraft, FunctionDraft.blocks, hdeclaration, bodyOf]
  | true =>
      have hempty := (h.sound f hf).declaration.mp hdeclaration
      simp [functionDraft, FunctionDraft.blocks, hdeclaration, bodyOf, Span.slice_of_eq hempty]

/-- A function is written as what the tables say about it. -/
theorem outline_functionDraft : (m.functionDraft f).outline = m.functionOutline f := by
  have harguments : (m.functionDraft f).arguments.map Variable.outline =
      (m.argumentsOf f).map m.valueOutline := by
    rw [functionDraft, ← argumentsOf, List.map_map]
    apply List.map_congr_left
    intro v hv
    rcases (h.sound f hf).arguments v hv with ⟨hkind, hopcode, hoperands, _⟩
    rw [valueOutline_argument hoperands, hkind, hopcode]
    rfl
  have hblocks : (m.functionDraft f).blocks.map BlockDraft.outline =
      (m.bodyOf f).map m.blockOutline := by
    rw [blocks_functionDraft h hf, List.map_map]
    exact List.map_congr_left fun b hb => outline_blockDraft h hf hb
  have hdeclaration : (m.functionDraft f).isDeclaration = f.isDeclaration := by
    cases hf : f.isDeclaration with
    | false => simp [functionDraft, FunctionDraft.isDeclaration, hf]
    | true => simp [functionDraft, FunctionDraft.isDeclaration, hf]
  rw [FunctionDraft.outline, harguments, hblocks, hdeclaration]
  rfl

/-!
## Words and names of written functions
-/

theorem valueName_mem {i : Nat} (hi : m.Owns f i) :
    m.valueName i ∈ (m.valuesOf f).map Value.name := by
  have hlt := (h.covers hf).owned hi
  rcases hi with ⟨s, hs, hstart, hstop⟩
  have hget := (Span.getElem?_slice_sub hstart hstop).trans (List.getElem?_eq_getElem hlt)
  have hslice : m.values[i] ∈ s.slice m.values := List.mem_of_getElem? hget
  rw [valueName, List.getElem?_eq_getElem hlt]
  exact List.mem_map_of_mem (List.mem_flatMap.mpr ⟨s, hs, hslice⟩)

theorem blockName_mem {i : Nat} (hi : f.blocks.start ≤ i ∧ i < f.blocks.stop) :
    m.blockName i ∈ (m.bodyOf f).map Block.name := by
  have hlt := Nat.lt_of_lt_of_le hi.2 (h.covers hf).blocks
  have hget := (Span.getElem?_slice_sub hi.1 hi.2).trans (List.getElem?_eq_getElem hlt)
  rw [blockName, List.getElem?_eq_getElem hlt]
  exact List.mem_map_of_mem (List.mem_of_getElem? hget)

theorem isName_of_mem {name : String} (hname : name ∈ (m.valuesOf f).map Value.name)
    (hne : name ≠ "") : IsName name := by
  rcases List.mem_map.mp hname with ⟨v, hv, rfl⟩
  rw [valuesOf_eq, List.mem_append, List.mem_flatMap] at hv
  rcases hv with hv | ⟨b, hb, hv⟩
  · exact ((h.sound f hf).arguments v hv).2.2.2
  · exact ((h.sound f hf).instructions b hb v hv).2.2 hne

theorem spelled_instructionDraft (hb : b ∈ m.bodyOf f) (hv : v ∈ m.instructionsOf b)
    (htargets : targets ⊆ (b.successors.slice m.blockSuccessors).map m.blockName) :
    (m.instructionDraft targets v).Spelled where
  result := by
    have hmem : v ∈ m.valuesOf f := by
      rw [valuesOf_eq]
      exact List.mem_append_right _ (List.mem_flatMap.mpr ⟨b, hb, hv⟩)
    intro w hw
    rw [instructionDraft, Option.ite_none_left_eq_some] at hw
    rcases hw with ⟨hne, hw⟩
    cases hw
    exact ⟨((h.sound f hf).instructions b hb v hv).2.2 hne, (h.sound f hf).types v hmem⟩
  opcode := ((h.sound f hf).instructions b hb v hv).2.1
  values := by
    rw [values_instructionDraft, List.forall_mem_map]
    intro i hi
    rcases (h.sound f hf).operands b hb v hv i hi with ⟨howns, hne⟩
    exact isName_of_mem h hf (valueName_mem h hf howns) hne
  targets := by
    rw [targets_instructionDraft]
    intro name hname
    rcases List.mem_map.mp (htargets hname) with ⟨i, hi, rfl⟩
    have hlabel := blockName_mem h hf ((h.sound f hf).successors b hb i hi)
    rcases List.mem_map.mp hlabel with ⟨c, hc, heq⟩
    exact heq ▸ (h.sound f hf).labels c hc

theorem spelled_functionDraft : (m.functionDraft f).Spelled where
  name := (h.sound f hf).name
  arguments := by
    intro v hv
    rcases List.mem_map.mp hv with ⟨w, hw, rfl⟩
    have hmem : w ∈ m.valuesOf f := by
      rw [valuesOf_eq]
      exact List.mem_append_left _ hw
    exact ⟨((h.sound f hf).arguments w hw).2.2.2, (h.sound f hf).types w hmem⟩
  blocks := by
    rw [blocks_functionDraft h hf, List.forall_mem_map]
    intro b hb
    refine ⟨(h.sound f hf).labels b hb, fun i hi => ?_⟩
    rcases mem_instructionDrafts hi with ⟨v, hv, names, hnames, rfl⟩
    exact spelled_instructionDraft h hf hb hv hnames
  body := by
    cases hdeclaration : f.isDeclaration with
    | true => simp [functionDraft, hdeclaration]
    | false =>
        have hne := mt (h.sound f hf).declaration.mpr (Bool.eq_false_iff.mp hdeclaration)
        have hle := (h.blocks_tiled.bounds (List.mem_map_of_mem hf)).2.1
        have hlength := Span.length_slice (h.covers hf).blocks
        intro hempty
        rw [functionDraft, hdeclaration, if_neg Bool.false_ne_true, Option.some.injEq,
          List.map_eq_nil_iff] at hempty
        rw [hempty, List.length_nil, Span.size] at hlength
        omega

/-- The names of a written function are in order, as they are in the tables. -/
theorem scoped_functionDraft : (m.functionDraft f).Scoped := by
  have hspelled := spelled_functionDraft h hf
  have houtline := outline_functionDraft h hf
  have hvalues : (m.functionDraft f).valueNames = (m.valuesOf f).map Value.name := by
    rw [FunctionDraft.valueNames_eq_outline, houtline, valuesOf_eq, FunctionOutline.values,
      functionOutline, List.flatMap_map, List.map_append, List.map_append, List.map_map,
      List.map_flatMap, List.map_flatMap]
    congr 1
    apply List.flatMap_congr
    intro b _
    exact List.map_map
  have hlabels : (m.functionDraft f).labels = (m.bodyOf f).map Block.name := by
    rw [FunctionDraft.labels_eq_outline, houtline, functionOutline, List.map_map]
    rfl
  constructor
  · rw [← FunctionDraft.filter_valueNames hspelled, hvalues, List.Nodup, List.pairwise_filter,
      List.pairwise_map]
    refine (h.sound f hf).distinct_values.imp fun hdistinct hne _ => ?_
    exact hdistinct (bne_iff_ne.mp hne)
  · rw [hlabels]
    exact (h.sound f hf).nodup_labels
  · intro name hname
    have hne := hspelled.ne_empty hname
    rw [FunctionDraft.operands_eq_outline, houtline, functionOutline, List.flatMap_map] at hname
    rcases List.mem_flatMap.mp hname with ⟨o, ho, hname⟩
    rcases List.mem_flatMap.mp ho with ⟨b, hb, ho⟩
    rcases List.mem_map.mp ho with ⟨v, hv, rfl⟩
    rcases List.mem_map.mp hname with ⟨i, hi, rfl⟩
    have howns := ((h.sound f hf).operands b hb v hv i hi).1
    rw [FunctionDraft.mem_definedNames hspelled, hvalues]
    exact ⟨valueName_mem h hf howns, hne⟩
  · intro name hname
    rw [FunctionDraft.targets_eq_outline, houtline, functionOutline, List.flatMap_map] at hname
    rcases List.mem_flatMap.mp hname with ⟨b, hb, hname⟩
    rcases List.mem_map.mp hname with ⟨i, hi, rfl⟩
    rw [hlabels]
    exact blockName_mem h hf ((h.sound f hf).successors b hb i hi)

end

theorem readDrafts_text (h : m.WellFormed) : readDrafts m.text = .ok m.drafts := by
  have hnames : m.drafts.map FunctionDraft.name = m.functions.map Function.name := by
    rw [drafts, List.map_map]
    rfl
  apply readDrafts_textOf
  · exact List.forall_mem_map.mpr fun f hf => spelled_functionDraft h hf
  · exact List.forall_mem_map.mpr fun f hf => scoped_functionDraft h hf
  · exact hnames ▸ h.nodup_names

/-- Every well-formed module is read back from its text, with every table as it was. -/
theorem parse_text (h : m.WellFormed) : Module.parse m.text = .ok m := by
  have hread := readDrafts_text h
  rcases wellFormed_of_readDrafts hread with ⟨hdrafts, hsame⟩
  have houtline : m.drafts.map FunctionDraft.outline = m.outline := by
    rw [drafts, List.map_map]
    exact List.map_congr_left fun f hf => outline_functionDraft h hf
  exact parse_eq_ok.mpr ⟨_, hread, eq_of_outline_eq hdrafts h (hsame.trans houtline)⟩

/-- A module with a declaration and a loop that uses a value before its definition. -/
theorem parse_text_countModule :
    countModule.WellFormed ∧ Module.parse countModule.text = .ok countModule := by
  have hparse : Module.parse countText = .ok countModule := by
    decide +kernel
  rcases parse_eq_ok.mp hparse with ⟨fs, hread, hfs⟩
  have hcount : countModule.WellFormed := hfs ▸ (wellFormed_of_readDrafts hread).1
  exact ⟨hcount, parse_text hcount⟩

example : countModule.text =
    "g()!\nf(%n:i32) \x7b\nentry:\nbr ^loop\n" ++
      "loop:\nstore %x\n%x:v4i32 = add %x %n\nbr ^loop\n\x7d\n" := by
  decide +kernel

end Module
end Tir
end LoopNest
