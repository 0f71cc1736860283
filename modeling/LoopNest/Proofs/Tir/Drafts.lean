import LoopNest.Proofs.Tir.Grammar
import LoopNest.Proofs.Tir.WellFormed

/-!
# The modules of drafts

The module of a function whose names are in order is well-formed, and its outline is the
function as it is written.  So is the module of a list of functions with different names.
-/

namespace LoopNest
namespace Tir

/-!
## Lists built along other lists
-/

section

variable {alpha beta gamma delta : Type} {xs : List alpha} {ys : List beta}

/-- A list that is built along another one from items whose relevant part is a function of the
other list's items. -/
theorem zipWith_eq_map {g : alpha -> gamma} {h : beta -> gamma} (build : alpha -> gamma -> delta)
    (hys : ys.map h = xs.map g) :
    List.zipWith (fun x y => build x (h y)) xs ys = xs.map fun x => build x (g x) := by
  rw [← List.zipWith_map_right, hys, List.zipWith_map_right, List.zipWith_self]

theorem zipWith_eq_map_left (h : xs.length ≤ ys.length) (part : alpha -> gamma) :
    List.zipWith (fun x _ => part x) xs ys = xs.map part := by
  have hfst := congrArg (List.map part) (List.map_fst_zip h)
  rw [List.map_map] at hfst
  rw [← List.map_uncurry_zip_eq_zipWith, ← hfst]
  rfl

theorem zipWith_eq_map_right (h : ys.length ≤ xs.length) (part : beta -> gamma) :
    List.zipWith (fun _ y => part y) xs ys = ys.map part := by
  have hsnd := congrArg (List.map part) (List.map_snd_zip h)
  rw [List.map_map] at hsnd
  rw [← List.map_uncurry_zip_eq_zipWith, ← hsnd]
  rfl

end

namespace Module

variable {f : FunctionDraft} {fs : List FunctionDraft} {name : String} {b : Block}
  {v : Value}

/-!
## The value table of one function
-/

def operandSpans (f : FunctionDraft) : List Span :=
  Span.consecutive 0 (f.instructions.map fun i => i.values.length)

theorem length_operandSpans (f : FunctionDraft) :
    (operandSpans f).length = f.instructions.length := by
  simp [operandSpans]

theorem values_ofDraft (f : FunctionDraft) :
    (ofDraft f).values = f.arguments.map argumentValue ++
      List.zipWith instructionValue f.instructions (operandSpans f) :=
  rfl

theorem names_ofDraft (f : FunctionDraft) :
    (ofDraft f).values.map Value.name = f.valueNames := by
  rw [values_ofDraft, List.map_append, List.map_map, List.map_zipWith, FunctionDraft.valueNames]
  congr 1
  exact zipWith_eq_map_left (length_operandSpans f).ge InstructionDraft.name

theorem length_values_ofDraft (f : FunctionDraft) :
    (ofDraft f).values.length = f.arguments.length + f.instructions.length := by
  rw [← List.length_map Value.name, names_ofDraft]
  simp [FunctionDraft.valueNames]

theorem valueName_idxOf (h : name ∈ f.valueNames) :
    (ofDraft f).valueName (f.valueNames.idxOf name) = name := by
  have hget := List.getElem?_idxOf h
  rw [← names_ofDraft, List.getElem?_map] at hget
  rw [valueName, ← names_ofDraft, hget]
  rfl

/-!
## The block table of one function
-/

def blockSpans (f : FunctionDraft) : List (Span × Span) :=
  (Span.consecutive 0 (f.blocks.map fun b => b.targets.length)).zip
    (Span.consecutive f.arguments.length (f.blocks.map fun b => b.instructions.length))

theorem blocks_ofDraft (f : FunctionDraft) :
    (ofDraft f).blocks = List.zipWith (fun b (spans : Span × Span) =>
      Block.mk b.label spans.1 spans.2) f.blocks (blockSpans f) :=
  rfl

theorem length_blockSpans (f : FunctionDraft) : (blockSpans f).length = f.blocks.length := by
  simp [blockSpans]

theorem labels_ofDraft (f : FunctionDraft) : (ofDraft f).blocks.map Block.name = f.labels := by
  rw [blocks_ofDraft, List.map_zipWith]
  exact zipWith_eq_map_left (length_blockSpans f).ge BlockDraft.label

theorem successorSpans_ofDraft (f : FunctionDraft) :
    (ofDraft f).blocks.map Block.successors =
      Span.consecutive 0 (f.blocks.map fun b => b.targets.length) := by
  rw [blocks_ofDraft, List.map_zipWith]
  calc List.zipWith (fun _ (spans : Span × Span) => spans.1) f.blocks (blockSpans f)
      = (blockSpans f).map Prod.fst := zipWith_eq_map_right (length_blockSpans f).le Prod.fst
    _ = _ := List.map_fst_zip (by simp)

theorem instructionSpans_ofDraft (f : FunctionDraft) :
    (ofDraft f).blocks.map Block.instructions =
      Span.consecutive f.arguments.length (f.blocks.map fun b => b.instructions.length) := by
  rw [blocks_ofDraft, List.map_zipWith]
  calc List.zipWith (fun _ (spans : Span × Span) => spans.2) f.blocks (blockSpans f)
      = (blockSpans f).map Prod.snd := zipWith_eq_map_right (length_blockSpans f).le Prod.snd
    _ = _ := List.map_snd_zip (by simp)

theorem length_blocks_ofDraft (f : FunctionDraft) :
    (ofDraft f).blocks.length = f.blocks.length := by
  rw [← List.length_map Block.name, labels_ofDraft, FunctionDraft.labels, List.length_map]

theorem blockName_idxOf (h : name ∈ f.labels) :
    (ofDraft f).blockName (f.labels.idxOf name) = name := by
  have hget := List.getElem?_idxOf h
  rw [← labels_ofDraft, List.getElem?_map] at hget
  rw [blockName, ← labels_ofDraft, hget]
  rfl

/-!
## The outline of one function
-/

section

variable (hspelled : f.Spelled) (hscoped : f.Scoped)
include hscoped

theorem targets_ofDraft :
    (ofDraft f).blockSuccessors.map (ofDraft f).blockName =
      f.blocks.flatMap BlockDraft.targets := by
  refine List.map_map.trans (Eq.trans (List.map_congr_left ?_) (List.map_id _))
  exact fun name hname => blockName_idxOf (hscoped.targets_defined name hname)

include hspelled

theorem operands_ofDraft :
    (ofDraft f).valueOperands.map (ofDraft f).valueName =
      f.instructions.flatMap InstructionDraft.values := by
  refine List.map_map.trans (Eq.trans (List.map_congr_left ?_) (List.map_id _))
  intro name hname
  have hdefined := hscoped.values_defined name hname
  exact valueName_idxOf ((FunctionDraft.mem_definedNames hspelled).mp hdefined).1

theorem values_outline_ofDraft :
    (ofDraft f).values.map (ofDraft f).valueOutline =
      f.arguments.map Variable.outline ++ f.instructions.map InstructionDraft.outline := by
  rw [values_ofDraft, List.map_append, List.map_map, List.map_zipWith]
  congr 1
  have hoperands : (operandSpans f).map (fun s =>
      (s.slice (ofDraft f).valueOperands).map (ofDraft f).valueName) =
        f.instructions.map InstructionDraft.values := by
    have hparts := Span.map_slice_flatten (f.instructions.map InstructionDraft.values)
    rw [List.map_map, ← List.flatMap_def, ← operands_ofDraft hspelled hscoped] at hparts
    simpa only [Span.slice_map, Function.comp_def, operandSpans] using hparts
  exact zipWith_eq_map (fun i names => ValueOutline.mk i.name .instruction i.opcode i.type names)
    hoperands

omit hspelled in
/-- The spans of the successors cut the successor table into the targets of the blocks. -/
theorem successor_runs_ofDraft :
    (Span.consecutive 0 (f.blocks.map fun b => b.targets.length)).map (fun s =>
      (s.slice (ofDraft f).blockSuccessors).map (ofDraft f).blockName) =
        f.blocks.map BlockDraft.targets := by
  have hparts := Span.map_slice_flatten (f.blocks.map BlockDraft.targets)
  rw [List.map_map, ← List.flatMap_def, ← targets_ofDraft hscoped] at hparts
  simpa only [Span.slice_map, Function.comp_def] using hparts

/-- The spans of the instructions cut the value table, behind the arguments, into the
instructions of the blocks. -/
theorem instruction_runs_ofDraft :
    (Span.consecutive f.arguments.length (f.blocks.map fun b => b.instructions.length)).map
      (fun s => (s.slice (ofDraft f).values).map (ofDraft f).valueOutline) =
        f.blocks.map fun b => b.instructions.map InstructionDraft.outline := by
  have hparts := Span.map_slice_consecutive (f.arguments.map Variable.outline)
    (f.blocks.map fun b => b.instructions.map InstructionDraft.outline) []
  have hflat : (f.blocks.map fun b => b.instructions.map InstructionDraft.outline).flatten =
      f.instructions.map InstructionDraft.outline := by
    rw [← List.flatMap_def, FunctionDraft.instructions, List.map_flatMap]
  rw [hflat, List.append_nil, ← values_outline_ofDraft hspelled hscoped, List.length_map,
    List.map_map] at hparts
  simpa only [Span.slice_map, Function.comp_def, List.length_map] using hparts

theorem blocks_outline_ofDraft :
    (ofDraft f).blocks.map (ofDraft f).blockOutline = f.blocks.map BlockDraft.outline := by
  have hruns : (blockSpans f).map (fun spans =>
      ((spans.1.slice (ofDraft f).blockSuccessors).map (ofDraft f).blockName,
        (spans.2.slice (ofDraft f).values).map (ofDraft f).valueOutline)) =
          f.blocks.map fun b => (b.targets, b.instructions.map InstructionDraft.outline) := by
    calc (blockSpans f).map _
        = (f.blocks.map BlockDraft.targets).zip
            (f.blocks.map fun b => b.instructions.map InstructionDraft.outline) := by
          rw [← successor_runs_ofDraft hscoped, ← instruction_runs_ofDraft hspelled hscoped,
            List.zip_map]
          rfl
      _ = _ := List.zip_map'
  rw [blocks_ofDraft, List.map_zipWith]
  exact zipWith_eq_map (fun b (parts : List String × List ValueOutline) =>
    BlockOutline.mk b.label parts.1 parts.2) hruns

end

/-!
## The module of one function is well-formed
-/

def draftFunction (f : FunctionDraft) : Function :=
  ⟨f.name, f.isDeclaration, ⟨0, f.blocks.length⟩, ⟨0, f.arguments.length⟩⟩

theorem functions_ofDraft (f : FunctionDraft) : (ofDraft f).functions = [draftFunction f] :=
  rfl

theorem bodyOf_ofDraft (f : FunctionDraft) :
    (ofDraft f).bodyOf (draftFunction f) = (ofDraft f).blocks := by
  rw [bodyOf, draftFunction, ← length_blocks_ofDraft, Span.slice_whole]

theorem argumentsOf_ofDraft (f : FunctionDraft) :
    (ofDraft f).argumentsOf (draftFunction f) = f.arguments.map argumentValue := by
  rw [argumentsOf, values_ofDraft, draftFunction, Span.slice_append_left (by simp),
    ← List.length_map argumentValue, Span.slice_whole]

theorem values_tiled_ofDraft (f : FunctionDraft) :
    Span.Tiles 0 ((ofDraft f).valueSpans (draftFunction f)) (ofDraft f).values.length := by
  have htiled := Span.tiles_consecutive f.arguments.length
    (f.blocks.map fun b => b.instructions.length)
  rw [← List.length_flatMap] at htiled
  rw [valueSpans, bodyOf_ofDraft, instructionSpans_ofDraft, length_values_ofDraft]
  exact ⟨rfl, Nat.zero_le _, htiled⟩

theorem successors_tiled_ofDraft (f : FunctionDraft) :
    Span.Tiles 0 ((ofDraft f).blocks.map Block.successors)
      (ofDraft f).blockSuccessors.length := by
  have htiled := Span.tiles_consecutive 0 (f.blocks.map fun b => b.targets.length)
  rw [← List.length_flatMap, Nat.zero_add, ← List.length_map f.labels.idxOf] at htiled
  rw [successorSpans_ofDraft]
  exact htiled

theorem operands_tiled_ofDraft (f : FunctionDraft) :
    Span.Tiles 0 (((ofDraft f).values.filter Value.isInstruction).map Value.operands)
      (ofDraft f).valueOperands.length := by
  have htiled := Span.tiles_consecutive 0 (f.instructions.map fun i => i.values.length)
  rw [← List.length_flatMap, Nat.zero_add, ← List.length_map f.valueNames.idxOf] at htiled
  have hvalues : (ofDraft f).values.filter Value.isInstruction =
      List.zipWith instructionValue f.instructions (operandSpans f) := by
    have hargs : (f.arguments.map argumentValue).filter Value.isInstruction = [] := by
      rw [List.filter_map]
      exact List.map_eq_nil_iff.mpr (List.filter_eq_nil_iff.mpr fun a _ => Bool.false_ne_true)
    rw [values_ofDraft, List.filter_append, hargs, List.nil_append, List.filter_eq_self]
    intro v hv
    rw [← List.map_uncurry_zip_eq_zipWith] at hv
    rcases List.mem_map.mp hv with ⟨pair, _, rfl⟩
    rfl
  have hspans : List.zipWith (fun _ s => s) f.instructions (operandSpans f) = operandSpans f :=
    (zipWith_eq_map_right (length_operandSpans f).le id).trans (List.map_id _)
  rw [hvalues, List.map_zipWith]
  exact hspans.symm ▸ htiled

theorem valuesOf_ofDraft (f : FunctionDraft) :
    (ofDraft f).valuesOf (draftFunction f) = (ofDraft f).values :=
  (values_tiled_ofDraft f).flatMap_slice_whole

theorem owns_ofDraft (h : name ∈ f.valueNames) :
    (ofDraft f).Owns (draftFunction f) (f.valueNames.idxOf name) := by
  have hlt := List.idxOf_lt_length_iff.mpr h
  rw [← names_ofDraft, List.length_map, names_ofDraft] at hlt
  exact (values_tiled_ofDraft f).exists_mem (Nat.zero_le _) hlt

section

variable (hspelled : f.Spelled) (hscoped : f.Scoped)
include hspelled hscoped

theorem exists_blockDraft (hb : b ∈ (ofDraft f).blocks) :
    exists d, d ∈ f.blocks ∧ d.outline = (ofDraft f).blockOutline b := by
  have hmem := List.mem_map_of_mem (f := (ofDraft f).blockOutline) hb
  rw [blocks_outline_ofDraft hspelled hscoped] at hmem
  exact List.mem_map.mp hmem

theorem exists_instructionDraft (hb : b ∈ (ofDraft f).blocks)
    (hv : v ∈ (ofDraft f).instructionsOf b) :
    exists i : InstructionDraft, i.Spelled ∧ i.outline = (ofDraft f).valueOutline v := by
  rcases exists_blockDraft hspelled hscoped hb with ⟨d, hd, houtline⟩
  have hinstructions := congrArg BlockOutline.instructions houtline
  have hmem := List.mem_map_of_mem (f := (ofDraft f).valueOutline) hv
  change _ ∈ ((ofDraft f).blockOutline b).instructions at hmem
  rw [← hinstructions] at hmem
  rcases List.mem_map.mp hmem with ⟨i, hi, hi'⟩
  exact ⟨i, (hspelled.blocks d hd).instructions i hi, hi'⟩

/-- The table repeats the empty name of unnamed instructions only. -/
theorem distinct_values_ofDraft :
    (ofDraft f).values.Pairwise fun v w => v.name ≠ "" -> v.name ≠ w.name := by
  have hnodup := hscoped.nodup_values
  rw [← FunctionDraft.filter_valueNames hspelled, ← names_ofDraft, List.Nodup,
    List.pairwise_filter, List.pairwise_map] at hnodup
  refine hnodup.imp fun {v w} h hv heq => ?_
  exact h (bne_iff_ne.mpr hv) (bne_iff_ne.mpr (heq ▸ hv)) heq

theorem branches_ofDraft (hb : b ∈ (ofDraft f).blocks)
    (hne : b.successors.start ≠ b.successors.stop) :
    b.instructions.start ≠ b.instructions.stop := by
  intro hempty
  rcases exists_blockDraft hspelled hscoped hb with ⟨d, _, houtline⟩
  -- without instructions the block has no targets, so the span of its successors is empty
  have hinstructions : d.instructions = [] := by
    have hparts : _ = ((ofDraft f).instructionsOf b).map _ :=
      congrArg BlockOutline.instructions houtline
    rw [instructionsOf, Span.slice_of_eq hempty] at hparts
    exact List.map_eq_nil_iff.mp hparts
  have htargets : d.targets = _ := congrArg BlockOutline.successors houtline
  rw [BlockDraft.targets, hinstructions, List.flatMap_nil] at htargets
  have hbounds := (successors_tiled_ofDraft f).bounds (List.mem_map_of_mem hb)
  have hlength := Span.length_slice hbounds.2.2
  rw [List.map_eq_nil_iff.mp htargets.symm, List.length_nil, Span.size] at hlength
  omega

theorem types_ofDraft (hv : v ∈ (ofDraft f).values) : v.type.Writable := by
  have hmem := List.mem_map_of_mem (f := (ofDraft f).valueOutline) hv
  rw [values_outline_ofDraft hspelled hscoped] at hmem
  rcases List.mem_append.mp hmem with hmem | hmem
  · rcases List.mem_map.mp hmem with ⟨a, ha, houtline⟩
    have htype : a.type = v.type := congrArg ValueOutline.type houtline
    exact htype ▸ (hspelled.arguments a ha).2
  · rcases List.mem_map.mp hmem with ⟨i, hi, houtline⟩
    have htype : i.type = v.type := congrArg ValueOutline.type houtline
    rcases List.mem_flatMap.mp hi with ⟨d, hd, hi⟩
    exact htype ▸ ((hspelled.blocks d hd).instructions i hi).writable_type

theorem sound_ofDraft : (ofDraft f).Sound (draftFunction f) where
  name := hspelled.name
  declaration := by
    have hbody := hspelled.body
    simp only [draftFunction, FunctionDraft.isDeclaration, FunctionDraft.blocks]
    cases hf : f.body with
    | none => simp
    | some bs =>
        rw [hf] at hbody
        simpa [eq_comm] using hbody
  arguments := by
    rw [argumentsOf_ofDraft]
    intro v hv
    rcases List.mem_map.mp hv with ⟨a, ha, rfl⟩
    exact ⟨rfl, rfl, rfl, (hspelled.arguments a ha).1⟩
  instructions := by
    rw [bodyOf_ofDraft]
    intro b hb v hv
    rcases exists_instructionDraft hspelled hscoped hb hv with ⟨i, hi, houtline⟩
    have hname : i.name = v.name := congrArg ValueOutline.name houtline
    have hopcode : i.opcode = v.opcode := congrArg ValueOutline.opcode houtline
    rw [← hname, ← hopcode]
    exact ⟨(congrArg ValueOutline.kind houtline).symm, hi.opcode, hi.isName_name⟩
  successors := by
    intro b _ i hi
    have hmem := (Span.slice_sublist _ _).subset hi
    rcases List.mem_map.mp hmem with ⟨name, hname, rfl⟩
    have hlt := List.idxOf_lt_length_iff.mpr (hscoped.targets_defined name hname)
    rw [FunctionDraft.labels, List.length_map] at hlt
    exact ⟨Nat.zero_le _, hlt⟩
  operands := by
    intro b _ v _ i hi
    have hmem := (Span.slice_sublist _ _).subset hi
    rcases List.mem_map.mp hmem with ⟨name, hname, rfl⟩
    have hdefined := hscoped.values_defined name hname
    have hvalue := ((FunctionDraft.mem_definedNames hspelled).mp hdefined).1
    rw [valueName_idxOf hvalue]
    exact ⟨owns_ofDraft hvalue, hspelled.ne_empty hname⟩
  labels := by
    rw [bodyOf_ofDraft]
    intro b hb
    rcases exists_blockDraft hspelled hscoped hb with ⟨d, hd, houtline⟩
    have hlabel : d.label = b.name := congrArg BlockOutline.label houtline
    exact hlabel ▸ (hspelled.blocks d hd).label
  nodup_labels := by
    rw [bodyOf_ofDraft, labels_ofDraft]
    exact hscoped.nodup_labels
  distinct_values := by
    rw [valuesOf_ofDraft]
    exact distinct_values_ofDraft hspelled hscoped
  branches := by
    rw [bodyOf_ofDraft]
    exact fun b hb => branches_ofDraft hspelled hscoped hb
  unnamed := by
    rw [bodyOf_ofDraft]
    intro b hb v hv hname
    rcases exists_instructionDraft hspelled hscoped hb hv with ⟨i, hi, houtline⟩
    have hname' : i.name = v.name := congrArg ValueOutline.name houtline
    have htype : i.type = v.type := congrArg ValueOutline.type houtline
    rw [← htype]
    exact hi.type_eq_void (hname'.trans hname)
  types := by
    rw [valuesOf_ofDraft]
    exact fun v hv => types_ofDraft hspelled hscoped hv

theorem wellFormed_ofDraft : (ofDraft f).WellFormed where
  blocks_tiled := ⟨rfl, Nat.zero_le _, (length_blocks_ofDraft f).symm⟩
  values_tiled := by
    rw [functions_ofDraft, List.flatMap_singleton]
    exact values_tiled_ofDraft f
  successors_tiled := successors_tiled_ofDraft f
  operands_tiled := operands_tiled_ofDraft f
  nodup_names := List.nodup_singleton _
  sound := by
    intro g hg
    cases List.mem_singleton.mp hg
    exact sound_ofDraft hspelled hscoped

theorem outline_ofDraft : (ofDraft f).outline = [f.outline] := by
  have hargs : (f.arguments.map argumentValue).map (ofDraft f).valueOutline =
      f.arguments.map Variable.outline := by
    rw [List.map_map]
    exact List.map_congr_left fun a _ => valueOutline_argument rfl
  rw [outline, functions_ofDraft, List.map_singleton, functionOutline, bodyOf_ofDraft,
    argumentsOf_ofDraft, blocks_outline_ofDraft hspelled hscoped, hargs]
  rfl

end

/-!
## Modules of several functions
-/

theorem names_ofDrafts (fs : List FunctionDraft) :
    (ofDrafts fs).functions.map Function.name = fs.map FunctionDraft.name := by
  induction fs with
  | nil => rfl
  | cons f fs ih =>
      rw [List.map_cons, ← ih, ofDrafts, Module.append, List.map_append, List.map_map]
      rfl

/-- The module of spelled and scoped functions with different names is well-formed, and its
outline is the functions as they are written. -/
theorem wellFormed_ofDrafts (hspelled : forall f, f ∈ fs -> f.Spelled)
    (hscoped : forall f, f ∈ fs -> f.Scoped) (hnames : (fs.map FunctionDraft.name).Nodup) :
    (ofDrafts fs).WellFormed ∧ (ofDrafts fs).outline = fs.map FunctionDraft.outline := by
  induction fs with
  | nil => exact ⟨wellFormed_empty, rfl⟩
  | cons f fs ih =>
      rw [List.map_cons, List.nodup_cons] at hnames
      rw [List.forall_mem_cons] at hspelled hscoped
      rcases ih hspelled.2 hscoped.2 hnames.2 with ⟨hrest, houtline⟩
      have hfirst := wellFormed_ofDraft hspelled.1 hscoped.1
      have hdisjoint : ((ofDraft f).functions.map Function.name).Disjoint
          ((ofDrafts fs).functions.map Function.name) := by
        rw [names_ofDrafts]
        exact List.singleton_disjoint.mpr hnames.1
      refine ⟨hfirst.append hrest hdisjoint, ?_⟩
      rw [ofDrafts, outline_append hfirst hrest, outline_ofDraft hspelled.1 hscoped.1, houtline]
      rfl

end Module
end Tir
end LoopNest
