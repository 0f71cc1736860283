import LoopNest.Proofs.Tir.Spans
import LoopNest.Proofs.Tir.Spelling
import LoopNest.Tir.Listing
import Mathlib.Data.List.Nodup

/-!
# Well-formed modules

The tables of a module fit together, and they can be told from its outline.

In a well-formed module every table is divided, in order, among the entries that refer to it,
and nothing that belongs to a function refers to another function.  Joining two well-formed
modules without a common function name gives a well-formed module.
-/

namespace LoopNest
namespace Tir

def Value.isInstruction (v : Value) : Bool :=
  decide (v.kind = .instruction)

namespace Module

/-!
## What belongs to a function
-/

def bodyOf (m : Module) (f : Function) : List Block :=
  f.blocks.slice m.blocks

def argumentsOf (m : Module) (f : Function) : List Value :=
  f.arguments.slice m.values

def instructionsOf (m : Module) (b : Block) : List Value :=
  b.instructions.slice m.values

/-- The spans of the values of a function: its arguments, then the instructions of its blocks
in turn. -/
def valueSpans (m : Module) (f : Function) : List Span :=
  f.arguments :: (m.bodyOf f).map Block.instructions

def valuesOf (m : Module) (f : Function) : List Value :=
  (m.valueSpans f).flatMap fun s => s.slice m.values

/-- The value at position `i` is one of the values of the function. -/
def Owns (m : Module) (f : Function) (i : Nat) : Prop :=
  exists s, s ∈ m.valueSpans f ∧ s.start ≤ i ∧ i < s.stop

/-- What a well-formed module says about one of its functions. -/
structure Sound (m : Module) (f : Function) : Prop where
  name : IsName f.name
  declaration : f.isDeclaration = true <-> f.blocks.start = f.blocks.stop
  arguments : forall v, v ∈ m.argumentsOf f ->
    v.kind = .argument ∧ v.opcode = "" ∧ v.operands = ⟨0, 0⟩ ∧ IsName v.name
  instructions : forall b, b ∈ m.bodyOf f -> forall v, v ∈ m.instructionsOf b ->
    v.kind = .instruction ∧ IsName v.opcode ∧ (v.name ≠ "" -> IsName v.name)
  successors : forall b, b ∈ m.bodyOf f -> forall i, i ∈ b.successors.slice m.blockSuccessors ->
    f.blocks.start ≤ i ∧ i < f.blocks.stop
  operands : forall b, b ∈ m.bodyOf f -> forall v, v ∈ m.instructionsOf b ->
    forall i, i ∈ v.operands.slice m.valueOperands -> m.Owns f i ∧ m.valueName i ≠ ""
  labels : forall b, b ∈ m.bodyOf f -> IsName b.name
  nodup_labels : ((m.bodyOf f).map Block.name).Nodup
  distinct_values : (m.valuesOf f).Pairwise fun v w => v.name ≠ "" -> v.name ≠ w.name
  branches : forall b, b ∈ m.bodyOf f ->
    b.successors.start ≠ b.successors.stop -> b.instructions.start ≠ b.instructions.stop
  unnamed : forall b, b ∈ m.bodyOf f -> forall v, v ∈ m.instructionsOf b ->
    v.name = "" -> v.type = .void
  types : forall v, v ∈ m.valuesOf f -> v.type.Writable

/-- The tables of a module fit together. -/
structure WellFormed (m : Module) : Prop where
  blocks_tiled : Span.Tiles 0 (m.functions.map Function.blocks) m.blocks.length
  values_tiled : Span.Tiles 0 (m.functions.flatMap m.valueSpans) m.values.length
  successors_tiled : Span.Tiles 0 (m.blocks.map Block.successors) m.blockSuccessors.length
  operands_tiled : Span.Tiles 0 ((m.values.filter Value.isInstruction).map Value.operands)
    m.valueOperands.length
  nodup_names : (m.functions.map Function.name).Nodup
  sound : forall f, f ∈ m.functions -> m.Sound f

/-!
## Spans inside the tables
-/

/-- Every span that belongs to the function ends inside its table. -/
structure Covers (m : Module) (f : Function) : Prop where
  blocks : f.blocks.stop ≤ m.blocks.length
  values : forall s, s ∈ m.valueSpans f -> s.stop ≤ m.values.length
  successors : forall b, b ∈ m.bodyOf f -> b.successors.stop ≤ m.blockSuccessors.length
  operands : forall b, b ∈ m.bodyOf f -> forall v, v ∈ m.instructionsOf b ->
    v.operands.stop ≤ m.valueOperands.length

variable {m k : Module} {f : Function} {b : Block} {v : Value} {i : Nat}

theorem mem_blocks_of_body (hb : b ∈ m.bodyOf f) : b ∈ m.blocks :=
  (Span.slice_sublist _ _).subset hb

theorem mem_values_of_block (hv : v ∈ m.instructionsOf b) : v ∈ m.values :=
  (Span.slice_sublist _ _).subset hv

theorem WellFormed.covers (h : m.WellFormed) (hf : f ∈ m.functions) : m.Covers f where
  blocks := (h.blocks_tiled.bounds (List.mem_map_of_mem hf)).2.2
  values := by
    intro s hs
    exact (h.values_tiled.bounds (List.mem_flatMap.mpr ⟨f, hf, hs⟩)).2.2
  successors := by
    intro b hb
    have hblock := List.mem_map_of_mem (f := Block.successors) (mem_blocks_of_body hb)
    exact (h.successors_tiled.bounds hblock).2.2
  operands := by
    intro b hb v hv
    have hkind := ((h.sound f hf).instructions b hb v hv).1
    have hmem : v ∈ m.values.filter Value.isInstruction :=
      List.mem_filter.mpr ⟨mem_values_of_block hv, decide_eq_true hkind⟩
    exact (h.operands_tiled.bounds (List.mem_map_of_mem hmem)).2.2

theorem Covers.arguments (h : m.Covers f) : f.arguments.stop ≤ m.values.length :=
  h.values _ List.mem_cons_self

theorem Covers.instructions (h : m.Covers f) (hb : b ∈ m.bodyOf f) :
    b.instructions.stop ≤ m.values.length :=
  h.values _ (List.mem_cons_of_mem _ (List.mem_map_of_mem hb))

theorem Covers.owned (h : m.Covers f) (hi : m.Owns f i) : i < m.values.length := by
  rcases hi with ⟨s, hs, _, hstop⟩
  exact Nat.lt_of_lt_of_le hstop (h.values s hs)

/-!
## The functions of the first module in a join
-/

section

variable (k) (h : m.Covers f)
include h

theorem bodyOf_append : (m.append k).bodyOf f = m.bodyOf f :=
  Span.slice_append_left h.blocks

theorem argumentsOf_append : (m.append k).argumentsOf f = m.argumentsOf f :=
  Span.slice_append_left h.arguments

theorem instructionsOf_append (hb : b ∈ m.bodyOf f) :
    (m.append k).instructionsOf b = m.instructionsOf b :=
  Span.slice_append_left (h.instructions hb)

theorem valueSpans_append : (m.append k).valueSpans f = m.valueSpans f := by
  rw [valueSpans, valueSpans, bodyOf_append k h]

theorem valuesOf_append : (m.append k).valuesOf f = m.valuesOf f := by
  rw [valuesOf, valuesOf, valueSpans_append k h]
  exact List.flatMap_congr fun s hs => Span.slice_append_left (h.values s hs)

theorem owns_append : (m.append k).Owns f i <-> m.Owns f i := by
  rw [Owns, Owns, valueSpans_append k h]

omit h in
theorem valueName_append (hi : i < m.values.length) :
    (m.append k).valueName i = m.valueName i := by
  rw [valueName, valueName, append, List.getElem?_append_left hi]

omit h in
theorem blockName_append (hi : i < m.blocks.length) :
    (m.append k).blockName i = m.blockName i := by
  rw [blockName, blockName, append, List.getElem?_append_left hi]

theorem Sound.append_left (hf : m.Sound f) : (m.append k).Sound f where
  name := hf.name
  declaration := hf.declaration
  arguments := by
    rw [argumentsOf_append k h]
    exact hf.arguments
  instructions := by
    rw [bodyOf_append k h]
    intro b hb
    rw [instructionsOf_append k h hb]
    exact hf.instructions b hb
  successors := by
    rw [bodyOf_append k h]
    intro b hb
    rw [append, Span.slice_append_left (h.successors b hb)]
    exact hf.successors b hb
  operands := by
    rw [bodyOf_append k h]
    intro b hb
    rw [instructionsOf_append k h hb]
    intro v hv i
    rw [append, Span.slice_append_left (h.operands b hb v hv)]
    intro hi
    rcases hf.operands b hb v hv i hi with ⟨howns, hname⟩
    refine ⟨(owns_append k h).mpr howns, ?_⟩
    rwa [← append, valueName_append k (h.owned howns)]
  labels := by
    rw [bodyOf_append k h]
    exact hf.labels
  nodup_labels := by
    rw [bodyOf_append k h]
    exact hf.nodup_labels
  distinct_values := by
    rw [valuesOf_append k h]
    exact hf.distinct_values
  branches := by
    rw [bodyOf_append k h]
    exact hf.branches
  unnamed := by
    rw [bodyOf_append k h]
    intro b hb
    rw [instructionsOf_append k h hb]
    exact hf.unnamed b hb
  types := by
    rw [valuesOf_append k h]
    exact hf.types

end

/-!
## The functions of the second module in a join
-/

section

variable (m k)

/-- Nothing but the operands of a value is shifted. -/
@[simp] theorem shift_fields (count : Nat) (v : Value) :
    (v.shift count).name = v.name ∧ (v.shift count).kind = v.kind ∧
      (v.shift count).opcode = v.opcode ∧ (v.shift count).type = v.type := by
  unfold Value.shift
  split
  · exact ⟨rfl, rfl, rfl, rfl⟩
  · exact ⟨rfl, rfl, rfl, rfl⟩

theorem shift_argument (count : Nat) (hv : v.kind = .argument) : v.shift count = v := by
  rw [Value.shift, hv]

theorem operands_shift (count : Nat) (hv : v.kind = .instruction) :
    (v.shift count).operands = v.operands.shift count := by
  rw [Value.shift, hv]

theorem bodyOf_shift (f : Function) :
    (m.append k).bodyOf (f.shift m.blocks.length m.values.length) =
      (k.bodyOf f).map (Block.shift m.blockSuccessors.length m.values.length) :=
  (Span.slice_shift_append _ _ _).trans (Span.slice_map _ _ _)

theorem argumentsOf_shift (f : Function) :
    (m.append k).argumentsOf (f.shift m.blocks.length m.values.length) =
      (k.argumentsOf f).map (Value.shift m.valueOperands.length) :=
  (Span.slice_shift_append _ _ _).trans (Span.slice_map _ _ _)

theorem instructionsOf_shift (b : Block) :
    (m.append k).instructionsOf (b.shift m.blockSuccessors.length m.values.length) =
      (k.instructionsOf b).map (Value.shift m.valueOperands.length) :=
  (Span.slice_shift_append _ _ _).trans (Span.slice_map _ _ _)

theorem successors_shift (b : Block) :
    (b.shift m.blockSuccessors.length m.values.length).successors.slice
        (m.append k).blockSuccessors =
      (b.successors.slice k.blockSuccessors).map (· + m.blocks.length) :=
  (Span.slice_shift_append _ _ _).trans (Span.slice_map _ _ _)

theorem operands_slice_shift (hv : v.kind = .instruction) :
    (v.shift m.valueOperands.length).operands.slice (m.append k).valueOperands =
      (v.operands.slice k.valueOperands).map (· + m.values.length) := by
  rw [operands_shift _ hv]
  exact (Span.slice_shift_append _ _ _).trans (Span.slice_map _ _ _)

theorem valueSpans_shift (f : Function) :
    (m.append k).valueSpans (f.shift m.blocks.length m.values.length) =
      (k.valueSpans f).map (Span.shift m.values.length) := by
  rw [valueSpans, bodyOf_shift, valueSpans, List.map_cons, List.map_map, List.map_map]
  rfl

theorem valuesOf_shift (f : Function) :
    (m.append k).valuesOf (f.shift m.blocks.length m.values.length) =
      (k.valuesOf f).map (Value.shift m.valueOperands.length) := by
  rw [valuesOf, valueSpans_shift, valuesOf, List.flatMap_map, List.map_flatMap]
  exact List.flatMap_congr fun s _ =>
    (Span.slice_shift_append _ _ _).trans (Span.slice_map _ _ _)

theorem owns_shift (h : k.Owns f i) :
    (m.append k).Owns (f.shift m.blocks.length m.values.length) (i + m.values.length) := by
  rcases h with ⟨s, hs, hstart, hstop⟩
  rw [Owns, valueSpans_shift]
  exact ⟨s.shift m.values.length, List.mem_map_of_mem hs,
    Nat.add_le_add_right hstart _, Nat.add_lt_add_right hstop _⟩

theorem valueName_shift (i : Nat) :
    (m.append k).valueName (i + m.values.length) = k.valueName i := by
  rw [valueName, valueName, append, List.getElem?_append_right (Nat.le_add_left _ _),
    Nat.add_sub_cancel, List.getElem?_map, Option.map_map]
  congr 2
  exact funext fun v => (shift_fields _ v).1

theorem blockName_shift (i : Nat) :
    (m.append k).blockName (i + m.blocks.length) = k.blockName i := by
  rw [blockName, blockName, append, List.getElem?_append_right (Nat.le_add_left _ _),
    Nat.add_sub_cancel, List.getElem?_map, Option.map_map]
  rfl

theorem Sound.append_right (hf : k.Sound f) :
    (m.append k).Sound (f.shift m.blocks.length m.values.length) where
  name := hf.name
  declaration := by
    rw [Function.shift, Span.shift]
    simpa using hf.declaration
  arguments := by
    rw [argumentsOf_shift, List.forall_mem_map]
    intro v hv
    have harg := hf.arguments v hv
    rwa [shift_argument _ harg.1]
  instructions := by
    rw [bodyOf_shift, List.forall_mem_map]
    intro b hb
    rw [instructionsOf_shift, List.forall_mem_map]
    intro v hv
    simpa using hf.instructions b hb v hv
  successors := by
    rw [bodyOf_shift, List.forall_mem_map]
    intro b hb
    rw [successors_shift, List.forall_mem_map]
    intro i hi
    rcases hf.successors b hb i hi with ⟨hstart, hstop⟩
    exact ⟨Nat.add_le_add_right hstart _, Nat.add_lt_add_right hstop _⟩
  operands := by
    rw [bodyOf_shift, List.forall_mem_map]
    intro b hb
    rw [instructionsOf_shift, List.forall_mem_map]
    intro v hv
    rw [operands_slice_shift m k (hf.instructions b hb v hv).1, List.forall_mem_map]
    intro i hi
    rcases hf.operands b hb v hv i hi with ⟨howns, hname⟩
    rw [valueName_shift]
    exact ⟨owns_shift m k howns, hname⟩
  labels := by
    rw [bodyOf_shift, List.forall_mem_map]
    intro b hb
    exact hf.labels b hb
  nodup_labels := by
    rw [bodyOf_shift, List.map_map]
    exact hf.nodup_labels
  distinct_values := by
    rw [valuesOf_shift, List.pairwise_map]
    simpa using hf.distinct_values
  branches := by
    rw [bodyOf_shift, List.forall_mem_map]
    intro b hb
    simpa [Block.shift, Span.shift] using hf.branches b hb
  unnamed := by
    rw [bodyOf_shift, List.forall_mem_map]
    intro b hb
    rw [instructionsOf_shift, List.forall_mem_map]
    intro v hv
    simpa using hf.unnamed b hb v hv
  types := by
    rw [valuesOf_shift, List.forall_mem_map]
    intro v hv
    simpa using hf.types v hv

end

/-!
## Joins
-/

theorem wellFormed_empty : empty.WellFormed where
  blocks_tiled := rfl
  values_tiled := rfl
  successors_tiled := rfl
  operands_tiled := rfl
  nodup_names := List.nodup_nil
  sound := fun _ hf => absurd hf List.not_mem_nil

theorem instructions_shift (count : Nat) (vs : List Value) :
    ((vs.map (Value.shift count)).filter Value.isInstruction).map Value.operands =
      ((vs.filter Value.isInstruction).map Value.operands).map (Span.shift count) := by
  have hkind : Value.isInstruction ∘ Value.shift count = Value.isInstruction := by
    funext v
    simp [Value.isInstruction]
  rw [List.filter_map, hkind, List.map_map, List.map_map]
  apply List.map_congr_left
  intro v hv
  exact operands_shift count (of_decide_eq_true (List.mem_filter.mp hv).2)

/-- The join of well-formed modules without a common name is well-formed. -/
theorem WellFormed.append (hm : m.WellFormed) (hk : k.WellFormed)
    (hnames : (m.functions.map Function.name).Disjoint (k.functions.map Function.name)) :
    (m.append k).WellFormed where
  blocks_tiled := by
    have hjoin := hm.blocks_tiled.join hk.blocks_tiled
    simpa [Module.append, Function.shift, Function.comp_def] using hjoin
  values_tiled := by
    have hleft : m.functions.flatMap (m.append k).valueSpans = m.functions.flatMap m.valueSpans :=
      List.flatMap_congr fun f hf => valueSpans_append k (hm.covers hf)
    have hright : (k.functions.map (Function.shift m.blocks.length m.values.length)).flatMap
        (m.append k).valueSpans =
          (k.functions.flatMap k.valueSpans).map (Span.shift m.values.length) := by
      rw [List.flatMap_map, List.map_flatMap]
      exact List.flatMap_congr fun f _ => valueSpans_shift m k f
    have hjoin := hm.values_tiled.join hk.values_tiled
    rw [← hleft, ← hright, ← List.flatMap_append] at hjoin
    simpa [Module.append] using hjoin
  successors_tiled := by
    have hjoin := hm.successors_tiled.join hk.successors_tiled
    simpa [Module.append, Block.shift, Function.comp_def] using hjoin
  operands_tiled := by
    have hjoin := hm.operands_tiled.join hk.operands_tiled
    rw [← instructions_shift, ← List.map_append, ← List.filter_append] at hjoin
    simpa [Module.append] using hjoin
  nodup_names := by
    have hnodup := List.nodup_append'.mpr ⟨hm.nodup_names, hk.nodup_names, hnames⟩
    simpa [Module.append, Function.shift, Function.comp_def] using hnodup
  sound := by
    intro f hf
    rcases List.mem_append.mp hf with hf | hf
    · exact (hm.sound f hf).append_left k (hm.covers hf)
    · rcases List.mem_map.mp hf with ⟨g, hg, rfl⟩
      exact (hk.sound g hg).append_right m k

end Module

/-!
## Outlines

The outline of a module is what its tables say when every position is followed and every
operand and successor is replaced by its name.  A well-formed module is determined by its
outline: the spans by their sizes, and an operand by its name, since the function that owns it
gives this name to one value only.
-/

structure ValueOutline where
  name : String
  kind : ValueKind
  opcode : String
  type : ValueType
  operands : List String
  deriving DecidableEq, Repr

structure BlockOutline where
  label : String
  successors : List String
  instructions : List ValueOutline
  deriving DecidableEq, Repr

structure FunctionOutline where
  name : String
  isDeclaration : Bool
  arguments : List ValueOutline
  blocks : List BlockOutline
  deriving DecidableEq, Repr

/-- The values of a function: its arguments, then the instructions of its blocks in turn. -/
def FunctionOutline.values (o : FunctionOutline) : List ValueOutline :=
  o.arguments ++ o.blocks.flatMap BlockOutline.instructions

/-- The numbers of its arguments and of the instructions of each of its blocks. -/
def FunctionOutline.sizes (o : FunctionOutline) : List Nat :=
  o.arguments.length :: o.blocks.map fun b => b.instructions.length

/-!
### Outlines of drafts
-/

def Variable.outline (v : Variable) : ValueOutline :=
  ⟨v.name, .argument, "", v.type, []⟩

def InstructionDraft.outline (i : InstructionDraft) : ValueOutline :=
  ⟨i.name, .instruction, i.opcode, i.type, i.values⟩

def BlockDraft.outline (b : BlockDraft) : BlockOutline :=
  ⟨b.label, b.targets, b.instructions.map InstructionDraft.outline⟩

def FunctionDraft.outline (f : FunctionDraft) : FunctionOutline :=
  ⟨f.name, f.isDeclaration, f.arguments.map Variable.outline, f.blocks.map BlockDraft.outline⟩

namespace Module

/-!
### Outlines of tables
-/

def valueOutline (m : Module) (v : Value) : ValueOutline :=
  ⟨v.name, v.kind, v.opcode, v.type, (v.operands.slice m.valueOperands).map m.valueName⟩

def blockOutline (m : Module) (b : Block) : BlockOutline :=
  ⟨b.name, (b.successors.slice m.blockSuccessors).map m.blockName,
    (m.instructionsOf b).map m.valueOutline⟩

def functionOutline (m : Module) (f : Function) : FunctionOutline :=
  ⟨f.name, f.isDeclaration, (m.argumentsOf f).map m.valueOutline,
    (m.bodyOf f).map m.blockOutline⟩

def outline (m : Module) : List FunctionOutline :=
  m.functions.map m.functionOutline

variable {m k : Module} {f : Function} {b : Block} {v : Value} {i : Nat}

/-!
### Outlines of joins
-/

theorem valueOutline_argument (h : v.operands = ⟨0, 0⟩) :
    m.valueOutline v = ⟨v.name, v.kind, v.opcode, v.type, []⟩ := by
  rw [valueOutline, h]
  simp [Span.slice]

theorem functionOutline_append_left (k : Module) (hc : m.Covers f) (hf : m.Sound f) :
    (m.append k).functionOutline f = m.functionOutline f := by
  have hargs : (m.argumentsOf f).map (m.append k).valueOutline =
      (m.argumentsOf f).map m.valueOutline := by
    apply List.map_congr_left
    intro v hv
    have hoperands := (hf.arguments v hv).2.2.1
    rw [valueOutline_argument hoperands, valueOutline_argument hoperands]
  have hvalue : forall b, b ∈ m.bodyOf f -> forall v, v ∈ m.instructionsOf b ->
      (m.append k).valueOutline v = m.valueOutline v := by
    intro b hb v hv
    have hslice : v.operands.slice (m.append k).valueOperands =
        v.operands.slice m.valueOperands := Span.slice_append_left (hc.operands b hb v hv)
    simp only [valueOutline, hslice, ValueOutline.mk.injEq, true_and]
    apply List.map_congr_left
    intro i hi
    exact valueName_append k (hc.owned (hf.operands b hb v hv i hi).1)
  have hbody : (m.bodyOf f).map (m.append k).blockOutline =
      (m.bodyOf f).map m.blockOutline := by
    apply List.map_congr_left
    intro b hb
    have hslice : b.successors.slice (m.append k).blockSuccessors =
        b.successors.slice m.blockSuccessors := Span.slice_append_left (hc.successors b hb)
    simp only [blockOutline, hslice, instructionsOf_append k hc hb, BlockOutline.mk.injEq,
      true_and]
    constructor
    · apply List.map_congr_left
      intro i hi
      have hbound := (hf.successors b hb i hi).2
      exact blockName_append k (Nat.lt_of_lt_of_le hbound hc.blocks)
    · exact List.map_congr_left (hvalue b hb)
  rw [functionOutline, functionOutline, argumentsOf_append k hc, bodyOf_append k hc, hargs, hbody]

theorem functionOutline_append_right (m : Module) (hf : k.Sound f) :
    (m.append k).functionOutline (f.shift m.blocks.length m.values.length) =
      k.functionOutline f := by
  have hargs : forall v, v ∈ k.argumentsOf f ->
      (m.append k).valueOutline (v.shift m.valueOperands.length) = k.valueOutline v := by
    intro v hv
    rcases hf.arguments v hv with ⟨hkind, _, hoperands, _⟩
    rw [shift_argument _ hkind, valueOutline_argument hoperands, valueOutline_argument hoperands]
  have hvalue : forall b, b ∈ k.bodyOf f -> forall v, v ∈ k.instructionsOf b ->
      (m.append k).valueOutline (v.shift m.valueOperands.length) = k.valueOutline v := by
    intro b hb v hv
    simp only [valueOutline, operands_slice_shift m k (hf.instructions b hb v hv).1, shift_fields,
      List.map_map, ValueOutline.mk.injEq, true_and]
    exact List.map_congr_left fun i _ => valueName_shift m k i
  have hbody : forall b, b ∈ k.bodyOf f ->
      (m.append k).blockOutline (b.shift m.blockSuccessors.length m.values.length) =
        k.blockOutline b := by
    intro b hb
    simp only [blockOutline, successors_shift, instructionsOf_shift, List.map_map,
      BlockOutline.mk.injEq]
    refine ⟨rfl, ?_, ?_⟩
    · exact List.map_congr_left fun i _ => blockName_shift m k i
    · exact List.map_congr_left (hvalue b hb)
  simp only [functionOutline, argumentsOf_shift, bodyOf_shift, List.map_map,
    FunctionOutline.mk.injEq]
  exact ⟨rfl, rfl, List.map_congr_left hargs, List.map_congr_left hbody⟩

/-- The outline of a join is one outline after the other. -/
theorem outline_append (hm : m.WellFormed) (hk : k.WellFormed) :
    (m.append k).outline = m.outline ++ k.outline := by
  have hleft : m.functions.map (m.append k).functionOutline = m.outline :=
    List.map_congr_left fun f hf =>
      functionOutline_append_left k (hm.covers hf) (hm.sound f hf)
  have hright : (k.functions.map (Function.shift m.blocks.length m.values.length)).map
      (m.append k).functionOutline = k.outline := by
    rw [List.map_map]
    exact List.map_congr_left fun f hf => functionOutline_append_right m (hk.sound f hf)
  rw [← hleft, ← hright, ← List.map_append]
  rfl

end Module

end Tir
end LoopNest
