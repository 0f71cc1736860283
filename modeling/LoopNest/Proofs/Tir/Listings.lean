import LoopNest.Proofs.Tir.Language
import LoopNest.Proofs.Tir.Lines

/-!
# Listings

A listing shows functions, blocks and values by their names, so it shows the outline of a
module.  The lines of a function, of a block and of an instruction start with a heading that
does not occur behind it, so the lines tell how they belong together.  Modules that are read
from texts therefore have the same listing only if they are the same.
-/

namespace LoopNest
namespace Tir
namespace Line

/-!
## Headings
-/

/-- How deep the part of a module lies that starts at a line.  Arguments, successors and operands
start no part. -/
def depth : Line -> Nat
  | declaration _ | definition _ => 0
  | block _ => 1
  | instruction _ _ _ => 2
  | argument _ _ | successor _ | operand _ => 3

/-- The first line is a heading of the given depth, the others lie deeper. -/
def Part (d : Nat) (ls : List Line) : Prop :=
  exists head tail, ls = head :: tail ∧ head.depth = d ∧ forall l, l ∈ tail -> d < l.depth

section

variable {alpha : Type} {d : Nat} {part : alpha -> List Line} {xs ys : List alpha}
  {ls ks : List Line}

theorem depth_of_parts (hpart : forall x, Part d (part x)) (h : l ∈ xs.flatMap part) :
    d ≤ l.depth := by
  rcases List.mem_flatMap.mp h with ⟨x, _, hl⟩
  rcases hpart x with ⟨head, tail, heq, hhead, htail⟩
  rw [heq] at hl
  rcases List.mem_cons.mp hl with rfl | hl
  · exact Nat.le_of_eq hhead.symm
  · exact Nat.le_of_lt (htail l hl)

theorem head?_parts (hpart : forall x, Part d (part x)) :
    forall l, (xs.flatMap part).head? = some l -> decide (d < l.depth) = false := by
  intro l hl
  cases xs with
  | nil => cases hl
  | cons x xs =>
      rcases hpart x with ⟨head, tail, heq, hhead, _⟩
      rw [List.flatMap_cons, heq] at hl
      cases Option.some.inj hl
      exact decide_eq_false (Nat.not_lt.mpr (Nat.le_of_eq hhead))

/-- Lines in front of parts end where the first heading stands. -/
theorem parts_cut (hpart : forall x, Part d (part x)) (hls : forall l, l ∈ ls -> d < l.depth)
    (hks : forall l, l ∈ ks -> d < l.depth)
    (h : ls ++ xs.flatMap part = ks ++ ys.flatMap part) :
    ls = ks ∧ xs.flatMap part = ys.flatMap part :=
  append_inj_of_run (fun l hl => decide_eq_true (hls l hl))
    (fun l hl => decide_eq_true (hks l hl)) (head?_parts hpart) (head?_parts hpart) h

theorem flatMap_part_ne_nil (hpart : forall x, Part d (part x)) (x : alpha) :
    (x :: xs).flatMap part ≠ [] := by
  rcases hpart x with ⟨head, tail, heq, _⟩
  simp [heq]

theorem parts_inj (hpart : forall x, Part d (part x))
    (hinj : forall x, x ∈ xs -> forall y, y ∈ ys -> part x = part y -> x = y)
    (h : xs.flatMap part = ys.flatMap part) : xs = ys := by
  induction xs generalizing ys with
  | nil =>
      cases ys with
      | nil => rfl
      | cons y ys => exact absurd h.symm (flatMap_part_ne_nil hpart y)
  | cons x xs ih =>
      cases ys with
      | nil => exact absurd h (flatMap_part_ne_nil hpart x)
      | cons y ys =>
          -- the lines behind the first heading stand in front of the other parts
          rcases hpart x with ⟨head, tail, hx, _, htail⟩
          rcases hpart y with ⟨head', tail', hy, _, htail'⟩
          rw [List.flatMap_cons, List.flatMap_cons, hx, hy, List.cons_append, List.cons_append,
            List.cons.injEq] at h
          rcases parts_cut hpart htail htail' h.2 with ⟨htails, hrest⟩
          have hxy := hinj x List.mem_cons_self y List.mem_cons_self (by rw [hx, hy, h.1, htails])
          rw [hxy, ih (fun x hx y hy =>
            hinj x (List.mem_cons_of_mem _ hx) y (List.mem_cons_of_mem _ hy)) hrest]

end

end Line

/-!
## The lines of an outline
-/

def ValueOutline.argumentLine (o : ValueOutline) : Line :=
  .argument o.name o.type

def ValueOutline.lines (o : ValueOutline) : List Line :=
  .instruction o.name o.opcode o.type :: o.operands.map .operand

def BlockOutline.lines (o : BlockOutline) : List Line :=
  .block o.label :: (o.successors.map .successor ++ o.instructions.flatMap ValueOutline.lines)

def FunctionOutline.heading (o : FunctionOutline) : Line :=
  if o.isDeclaration then .declaration o.name else .definition o.name

def FunctionOutline.lines (o : FunctionOutline) : List Line :=
  o.heading ::
    (o.arguments.map ValueOutline.argumentLine ++ o.blocks.flatMap BlockOutline.lines)

namespace Module

variable (m : Module)

theorem text_instruction (v : Value) :
    (Line.instruction v.name v.opcode v.type).text = instructionLine v := by
  apply String.toList_inj.mp
  rw [instructionLine, Line.text, Line.details, Line.behindName]
  split
  · rename_i hempty
    simp [Line.keyword, String.isEmpty_iff.mp hempty]
  · simp [Line.keyword]

theorem text_argument (v : Value) :
    (m.valueOutline v).argumentLine.text = argumentLine v := by
  apply String.toList_inj.mp
  simp [argumentLine, valueOutline, ValueOutline.argumentLine, Line.text, Line.keyword,
    Line.details]

theorem text_heading (f : Function) :
    (m.functionOutline f).heading.text =
      (if f.isDeclaration then "Extern function " else "Function ") ++ f.name := by
  apply String.toList_inj.mp
  unfold functionOutline FunctionOutline.heading
  split
  · simp [Line.text, Line.keyword, Line.details]
  · simp [Line.text, Line.keyword, Line.details]

theorem instructionLines_eq (v : Value) :
    m.instructionLines v = (m.valueOutline v).lines.map Line.text := by
  rw [instructionLines, ← text_instruction, ValueOutline.lines, List.map_cons, List.map_map,
    valueOutline, List.map_map]
  rfl

theorem blockLines_eq (b : Block) :
    m.blockLines b = (m.blockOutline b).lines.map Line.text := by
  have hinstructions : (m.instructionsOf b).flatMap m.instructionLines =
      ((m.instructionsOf b).map m.valueOutline).flatMap fun o => o.lines.map Line.text := by
    rw [List.flatMap_map]
    exact List.flatMap_congr fun v _ => m.instructionLines_eq v
  rw [BlockOutline.lines, List.map_cons, List.map_append, List.map_map, List.map_flatMap,
    blockOutline, List.map_map, ← hinstructions]
  rfl

theorem functionLines_eq (f : Function) :
    m.functionLines f = (m.functionOutline f).lines.map Line.text := by
  have hblocks : (m.bodyOf f).flatMap m.blockLines =
      ((m.bodyOf f).map m.blockOutline).flatMap fun o => o.lines.map Line.text := by
    rw [List.flatMap_map]
    exact List.flatMap_congr fun b _ => m.blockLines_eq b
  have harguments : (m.argumentsOf f).map argumentLine =
      (m.argumentsOf f).map fun v => (m.valueOutline v).argumentLine.text :=
    List.map_congr_left fun v _ => (m.text_argument v).symm
  rw [FunctionOutline.lines, List.map_cons, text_heading, List.map_append, List.map_map,
    List.map_flatMap, functionOutline, List.map_map, ← hblocks]
  exact congrArg (fun lines => _ :: (lines ++ _)) harguments

/-- A listing shows the outline. -/
theorem lines_eq :
    m.lines = "Printing IR" :: (m.outline.flatMap FunctionOutline.lines).map Line.text := by
  rw [lines, outline, List.flatMap_map, List.map_flatMap]
  congr 1
  exact List.flatMap_congr fun f _ => m.functionLines_eq f

end Module

/-!
## Outlines with the same lines
-/

/-- What the outline of an argument is like. -/
structure ValueOutline.IsArgument (o : ValueOutline) : Prop where
  kind : o.kind = .argument
  opcode : o.opcode = ""
  operands : o.operands = []
  name : IsName o.name

/-- What the outline of an instruction is like. -/
structure ValueOutline.IsInstruction (o : ValueOutline) : Prop where
  kind : o.kind = .instruction
  opcode : IsName o.opcode
  name : o.name ≠ "" -> IsName o.name
  type : o.name = "" -> o.type = .void
  operands : forall name, name ∈ o.operands -> IsName name

structure BlockOutline.Spelled (o : BlockOutline) : Prop where
  label : IsName o.label
  successors : forall label, label ∈ o.successors -> IsName label
  instructions : forall i, i ∈ o.instructions -> i.IsInstruction

structure FunctionOutline.Spelled (o : FunctionOutline) : Prop where
  name : IsName o.name
  arguments : forall a, a ∈ o.arguments -> a.IsArgument
  blocks : forall b, b ∈ o.blocks -> b.Spelled

theorem Line.depth_successors (labels : List String) :
    forall l, l ∈ labels.map Line.successor -> 2 < l.depth := by
  simp [depth]

theorem ValueOutline.depth_arguments (os : List ValueOutline) :
    forall l, l ∈ os.map argumentLine -> 1 < l.depth := by
  simp [argumentLine, Line.depth]

theorem ValueOutline.part (o : ValueOutline) : Line.Part 2 o.lines := by
  refine ⟨_, _, rfl, rfl, ?_⟩
  simp [Line.depth]

theorem BlockOutline.part (o : BlockOutline) : Line.Part 1 o.lines := by
  refine ⟨_, _, rfl, rfl, ?_⟩
  intro l hl
  rcases List.mem_append.mp hl with hl | hl
  · exact Nat.lt_of_succ_lt (Line.depth_successors _ l hl)
  · exact Line.depth_of_parts ValueOutline.part hl

theorem FunctionOutline.part (o : FunctionOutline) : Line.Part 0 o.lines := by
  refine ⟨_, _, rfl, ?_, ?_⟩
  · unfold heading
    split
    · rfl
    · rfl
  · intro l hl
    rcases List.mem_append.mp hl with hl | hl
    · exact Nat.lt_of_succ_lt (ValueOutline.depth_arguments _ l hl)
    · exact Line.depth_of_parts BlockOutline.part hl

theorem ValueOutline.eq_of_argumentLine {v w : ValueOutline} (hv : v.IsArgument)
    (hw : w.IsArgument) (h : v.argumentLine = w.argumentLine) : v = w := by
  rcases Line.argument.inj h with ⟨hname, htype⟩
  have hkind := hv.kind.trans hw.kind.symm
  have hopcode := hv.opcode.trans hw.opcode.symm
  have hoperands := hv.operands.trans hw.operands.symm
  cases v
  cases w
  simp_all

theorem ValueOutline.eq_of_lines {v w : ValueOutline} (hv : v.IsInstruction)
    (hw : w.IsInstruction) (h : v.lines = w.lines) : v = w := by
  rcases List.cons.inj h with ⟨hheading, hoperands⟩
  rcases Line.instruction.inj hheading with ⟨hname, hopcode, htype⟩
  have hoperand : v.operands = w.operands :=
    List.map_injective_iff.mpr (fun _ _ hline => Line.operand.inj hline) hoperands
  have hkind := hv.kind.trans hw.kind.symm
  cases v
  cases w
  simp_all

theorem BlockOutline.eq_of_lines {b c : BlockOutline} (hb : b.Spelled) (hc : c.Spelled)
    (h : b.lines = c.lines) : b = c := by
  rcases List.cons.inj h with ⟨hheading, hbehind⟩
  rcases Line.parts_cut ValueOutline.part (Line.depth_successors _) (Line.depth_successors _)
    hbehind with ⟨hlines, hparts⟩
  have hsuccessors : b.successors = c.successors :=
    List.map_injective_iff.mpr (fun _ _ hline => Line.successor.inj hline) hlines
  have hinstructions := Line.parts_inj ValueOutline.part
    (fun v hv w hw => ValueOutline.eq_of_lines (hb.instructions v hv) (hc.instructions w hw))
    hparts
  have hlabel := Line.block.inj hheading
  cases b
  cases c
  simp_all

theorem FunctionOutline.heading_inj {f g : FunctionOutline} (h : f.heading = g.heading) :
    f.name = g.name ∧ f.isDeclaration = g.isDeclaration := by
  unfold heading at h
  cases hf : f.isDeclaration with
  | true =>
      cases hg : g.isDeclaration with
      | true => simpa [hf, hg] using h
      | false => simp [hf, hg] at h
  | false =>
      cases hg : g.isDeclaration with
      | true => simp [hf, hg] at h
      | false => simpa [hf, hg] using h

theorem FunctionOutline.eq_of_lines {f g : FunctionOutline} (hf : f.Spelled) (hg : g.Spelled)
    (h : f.lines = g.lines) : f = g := by
  rcases List.cons.inj h with ⟨hheading, hbehind⟩
  rcases heading_inj hheading with ⟨hname, hdeclaration⟩
  rcases Line.parts_cut BlockOutline.part (ValueOutline.depth_arguments _)
    (ValueOutline.depth_arguments _) hbehind with ⟨hlines, hparts⟩
  have harguments := eq_of_map_eq_on
    (fun v hv w hw => ValueOutline.eq_of_argumentLine (hf.arguments v hv) (hg.arguments w hw))
    hlines
  have hblocks := Line.parts_inj BlockOutline.part
    (fun b hb c hc => BlockOutline.eq_of_lines (hf.blocks b hb) (hg.blocks c hc)) hparts
  cases f
  cases g
  simp_all

/-!
## Listings of modules that are read from texts
-/

theorem Variable.Spelled.outline {v : Variable} (h : v.Spelled) : v.outline.IsArgument where
  kind := rfl
  opcode := rfl
  operands := rfl
  name := h.1

theorem InstructionDraft.Spelled.outline {i : InstructionDraft} (h : i.Spelled) :
    i.outline.IsInstruction where
  kind := rfl
  opcode := h.opcode
  name := h.isName_name
  type := h.type_eq_void
  operands := h.values

theorem BlockDraft.Spelled.outline {b : BlockDraft} (h : b.Spelled) : b.outline.Spelled where
  label := h.label
  successors := by
    intro label hlabel
    rcases List.mem_flatMap.mp hlabel with ⟨i, hi, hlabel⟩
    exact (h.instructions i hi).targets label hlabel
  instructions := List.forall_mem_map.mpr fun i hi => (h.instructions i hi).outline

theorem FunctionDraft.Spelled.outline {f : FunctionDraft} (h : f.Spelled) :
    f.outline.Spelled where
  name := h.name
  arguments := List.forall_mem_map.mpr fun v hv => (h.arguments v hv).outline
  blocks := List.forall_mem_map.mpr fun b hb => (h.blocks b hb).outline

theorem ValueOutline.IsInstruction.lines {o : ValueOutline} (h : o.IsInstruction) :
    forall l, l ∈ o.lines -> l.Spelled :=
  List.forall_mem_cons.mpr ⟨⟨h.opcode, h.name, h.type⟩, List.forall_mem_map.mpr h.operands⟩

theorem BlockOutline.Spelled.lines {o : BlockOutline} (h : o.Spelled) :
    forall l, l ∈ o.lines -> l.Spelled := by
  refine List.forall_mem_cons.mpr ⟨h.label, List.forall_mem_append.mpr ⟨?_, ?_⟩⟩
  · exact List.forall_mem_map.mpr h.successors
  · exact List.forall_mem_flatMap.mpr fun i hi => (h.instructions i hi).lines

theorem FunctionOutline.Spelled.lines {o : FunctionOutline} (h : o.Spelled) :
    forall l, l ∈ o.lines -> l.Spelled := by
  refine List.forall_mem_cons.mpr ⟨?_, List.forall_mem_append.mpr ⟨?_, ?_⟩⟩
  · unfold heading
    split
    · exact h.name
    · exact h.name
  · exact List.forall_mem_map.mpr fun a ha => (h.arguments a ha).name
  · exact List.forall_mem_flatMap.mpr fun b hb => (h.blocks b hb).lines

namespace Module

variable {m k : Module} {first second : String}

theorem spelled_of_parse (h : Module.parse first = .ok m) :
    forall o, o ∈ m.outline -> o.Spelled := by
  rcases parse_eq_ok.mp h with ⟨fs, hread, rfl⟩
  rcases readDrafts_eq_ok.mp hread with ⟨⟨_, _, htext⟩, _, _⟩
  rw [(wellFormed_of_readDrafts hread).2]
  exact List.forall_mem_map.mpr fun f hf => (htext.spelled f hf).outline

theorem not_mem_lines (h : forall o, o ∈ m.outline -> o.Spelled) :
    forall line, line ∈ m.lines -> '\n' ∉ line.toList := by
  rw [lines_eq]
  refine List.forall_mem_cons.mpr ⟨by decide, List.forall_mem_map.mpr ?_⟩
  exact List.forall_mem_flatMap.mpr fun o ho l hl => Line.not_mem_text ((h o ho).lines l hl)

/-- The listing of a module whose words are identifiers fixes its outline. -/
theorem outline_eq_of_listing (hm : forall o, o ∈ m.outline -> o.Spelled)
    (hk : forall o, o ∈ k.outline -> o.Spelled) (h : m.listing = k.listing) :
    m.outline = k.outline := by
  have hlines := Text.ofLines_inj (not_mem_lines hm) (not_mem_lines hk) h
  rw [lines_eq, lines_eq, List.cons.injEq] at hlines
  have hparts := eq_of_map_eq_on
    (fun l hl l' hl' => Line.text_inj
      (List.forall_mem_flatMap.mpr (fun o ho => (hm o ho).lines) l hl)
      (List.forall_mem_flatMap.mpr (fun o ho => (hk o ho).lines) l' hl')) hlines.2
  exact Line.parts_inj FunctionOutline.part
    (fun f hf g hg => FunctionOutline.eq_of_lines (hm f hf) (hk g hg)) hparts

/-- Modules that are read from texts have the same listing if and only if they are equal in
every table and every position. -/
theorem listing_inj (hm : Module.parse first = .ok m) (hk : Module.parse second = .ok k) :
    m.listing = k.listing <-> m = k := by
  constructor
  · intro h
    rcases parse_eq_ok.mp hm with ⟨fs, hfs, rfl⟩
    rcases parse_eq_ok.mp hk with ⟨gs, hgs, rfl⟩
    exact eq_of_outline_eq (wellFormed_of_readDrafts hfs).1 (wellFormed_of_readDrafts hgs).1
      (outline_eq_of_listing (spelled_of_parse hm) (spelled_of_parse hk) h)
  · intro h
    rw [h]

def swappedText : String :=
  "f(%n) \x7bentry: br ^loop\nloop: store %x\n%x:v4f32 = add %x, %n\nbr ^loop\x7d g()! ; last"

def swappedModule : Module where
  functions := [⟨"f", false, ⟨0, 2⟩, ⟨0, 1⟩⟩, ⟨"g", true, ⟨2, 2⟩, ⟨5, 5⟩⟩]
  blocks := countModule.blocks
  values := countModule.values
  valueOperands := [3, 3, 0]
  blockSuccessors := [1, 1]

theorem listing_countModule_ne :
    Module.parse countText = .ok countModule ∧ Module.parse swappedText = .ok swappedModule ∧
      countModule.listing ≠ swappedModule.listing := by
  have hcount : Module.parse countText = .ok countModule := by
    decide +kernel
  have hswapped : Module.parse swappedText = .ok swappedModule := by
    decide +kernel
  have hne : countModule ≠ swappedModule := by
    decide
  exact ⟨hcount, hswapped, fun h => hne ((listing_inj hcount hswapped).mp h)⟩

end Module
end Tir
end LoopNest
