import LoopNest.Proofs.Tir.Lexemes
import Mathlib.Data.List.Basic

/-!
# Spelling

Whatever the grammar derives is spelled with identifiers, and its types are those that an
annotation can name.
-/

namespace LoopNest

/-- A type that a module text can give to a value: no label, and a vector of at least one and
fewer than `laneBound` lanes. -/
def ValueType.Writable (type : ValueType) : Prop :=
  type ≠ .label ∧ forall lanes, type = .vector lanes -> 0 < lanes ∧ lanes < laneBound

namespace Tir

def Variable.Spelled (v : Variable) : Prop :=
  IsName v.name ∧ v.type.Writable

structure InstructionDraft.Spelled (i : InstructionDraft) : Prop where
  result : forall v, i.result = some v -> v.Spelled
  opcode : IsName i.opcode
  values : forall name, name ∈ i.values -> IsName name
  targets : forall name, name ∈ i.targets -> IsName name

structure BlockDraft.Spelled (b : BlockDraft) : Prop where
  label : IsName b.label
  instructions : forall i, i ∈ b.instructions -> i.Spelled

/-- The words of a function are identifiers, and a body has blocks. -/
structure FunctionDraft.Spelled (f : FunctionDraft) : Prop where
  name : IsName f.name
  arguments : forall v, v ∈ f.arguments -> v.Spelled
  blocks : forall b, b ∈ f.blocks -> b.Spelled
  body : f.body ≠ some []

namespace InstructionDraft

variable {i : InstructionDraft}

theorem Spelled.isName_name (h : i.Spelled) (hname : i.name ≠ "") : IsName i.name := by
  unfold InstructionDraft.name at *
  cases hresult : i.result with
  | none => simp [hresult] at hname
  | some v => exact (h.result v hresult).1

theorem Spelled.type_eq_void (h : i.Spelled) (hname : i.name = "") : i.type = .void := by
  unfold InstructionDraft.name InstructionDraft.type at *
  cases hresult : i.result with
  | none => rfl
  | some v =>
      rw [hresult] at hname
      exact absurd hname (h.result v hresult).1.ne_empty

theorem Spelled.writable_type (h : i.Spelled) : i.type.Writable := by
  unfold InstructionDraft.type
  cases hresult : i.result with
  | none => exact ⟨by simp, by simp⟩
  | some v => exact (h.result v hresult).2

end InstructionDraft

variable {cs rest : List Char}

theorem TypeName.writable {name : String} {type : ValueType} (h : TypeName name type) :
    type.Writable := by
  cases h with
  | scalar | void | aggregate => exact ⟨by simp, by simp⟩
  | vector _ _ hpos hlt _ =>
      refine ⟨by simp, fun lanes heq => ?_⟩
      cases heq
      exact ⟨hpos, hlt⟩

theorem DefinitionText.spelled {v : Variable} (h : DefinitionText cs v rest) : v.Spelled := by
  cases h with
  | plain hname => exact ⟨hname.isName, by simp [ValueType.Writable]⟩
  | annotated hname _ htype => exact ⟨hname.isName, htype.writable⟩

theorem OperandsText.spelled {os : List Operand} (h : OperandsText cs os rest) :
    forall o, o ∈ os -> forall name, o = .value name ∨ o = .block name -> IsName name := by
  induction h with
  | spaces _ _ ih => exact ih
  | comma _ ih => exact ih
  | value hname _ ih =>
      intro o ho name hcase
      rcases List.mem_cons.mp ho with rfl | ho
      · rcases hcase with heq | heq
        · cases heq
          exact hname.isName
        · cases heq
      · exact ih o ho name hcase
  | block hname _ ih =>
      intro o ho name hcase
      rcases List.mem_cons.mp ho with rfl | ho
      · rcases hcase with heq | heq
        · cases heq
        · cases heq
          exact hname.isName
      · exact ih o ho name hcase
  | line => exact fun o ho => absurd ho List.not_mem_nil
  | brace => exact fun o ho => absurd ho List.not_mem_nil

theorem InstructionDraft.mem_values {i : InstructionDraft} {name : String} :
    name ∈ i.values <-> .value name ∈ i.operands := by
  rw [InstructionDraft.values, List.mem_filterMap]
  constructor
  · rintro ⟨o, ho, heq⟩
    cases o with
    | value other =>
        cases heq
        exact ho
    | block => cases heq
  · exact fun h => ⟨_, h, rfl⟩

theorem InstructionDraft.mem_targets {i : InstructionDraft} {name : String} :
    name ∈ i.targets <-> .block name ∈ i.operands := by
  rw [InstructionDraft.targets, List.mem_filterMap]
  constructor
  · rintro ⟨o, ho, heq⟩
    cases o with
    | value => cases heq
    | block other =>
        cases heq
        exact ho
  · exact fun h => ⟨_, h, rfl⟩

theorem InstructionText.spelled {i : InstructionDraft} (h : InstructionText cs i rest) :
    i.Spelled := by
  cases h with
  | instruction hresult hopcode hoperands _ =>
      have hspelled := hoperands.spelled
      refine ⟨fun v hv => ?_, hopcode.isName, fun name hname => ?_, fun name hname => ?_⟩
      · cases hresult with
        | none => cases hv
        | some htext _ _ =>
            cases hv
            exact htext.spelled
      · exact hspelled _ (InstructionDraft.mem_values.mp hname) name (Or.inl rfl)
      · exact hspelled _ (InstructionDraft.mem_targets.mp hname) name (Or.inr rfl)

theorem InstructionsText.spelled {is : List InstructionDraft} (h : InstructionsText cs is rest) :
    forall i, i ∈ is -> i.Spelled := by
  induction h with
  | nil => exact fun i hi => absurd hi List.not_mem_nil
  | cons hfirst _ ih =>
      intro i hi
      rcases List.mem_cons.mp hi with rfl | hi
      · exact hfirst.spelled
      · exact ih i hi

theorem BlocksText.spelled {bs : List BlockDraft} (h : BlocksText cs bs rest) :
    forall b, b ∈ bs -> b.Spelled := by
  induction h with
  | nil => exact fun b hb => absurd hb List.not_mem_nil
  | cons hfirst _ ih =>
      intro b hb
      rcases List.mem_cons.mp hb with rfl | hb
      · cases hfirst with
        | block hlabel _ htext => exact ⟨hlabel.isName, htext.spelled⟩
      · exact ih b hb

theorem ArgumentsText.spelled {vs : List Variable} (h : ArgumentsText cs vs rest) :
    forall v, v ∈ vs -> v.Spelled := by
  induction h with
  | none => exact fun v hv => absurd hv List.not_mem_nil
  | last htext _ =>
      intro v hv
      cases List.mem_singleton.mp hv
      exact htext.spelled
  | cons htext _ _ _ ih =>
      intro v hv
      rcases List.mem_cons.mp hv with rfl | hv
      · exact htext.spelled
      · exact ih v hv

theorem FunctionText.spelled {f : FunctionDraft} (h : FunctionText cs f rest) : f.Spelled := by
  cases h with
  | function hname _ _ hargs _ hending =>
      cases hending with
      | declaration =>
          exact ⟨hname.isName, hargs.spelled, fun b hb => absurd hb List.not_mem_nil, by simp⟩
      | body _ htext hbs =>
          exact ⟨hname.isName, hargs.spelled, htext.spelled, by simpa using hbs⟩

theorem FunctionsText.spelled {fs : List FunctionDraft} (h : FunctionsText cs fs) :
    forall f, f ∈ fs -> f.Spelled := by
  induction h with
  | nil => exact fun f hf => absurd hf List.not_mem_nil
  | cons hfirst _ _ ih =>
      intro f hf
      rcases List.mem_cons.mp hf with rfl | hf
      · exact hfirst.spelled
      · exact ih f hf

/-!
## Names in the value table
-/

namespace FunctionDraft

variable {f : FunctionDraft} {name : String}

/-- Without the unnamed instructions the value table holds the defined names. -/
theorem filter_valueNames (h : f.Spelled) :
    f.valueNames.filter (fun name => name != "") = f.definedNames := by
  have hargs : (f.arguments.map Variable.name).filter (fun name => name != "") =
      f.arguments.map Variable.name := by
    rw [List.filter_eq_self]
    intro name hname
    rcases List.mem_map.mp hname with ⟨v, hv, rfl⟩
    exact bne_iff_ne.mpr (h.arguments v hv).1.ne_empty
  have hresults : (f.instructions.map InstructionDraft.name).filter (fun name => name != "") =
      f.blocks.flatMap BlockDraft.defines := by
    rw [List.map_eq_flatMap, List.filter_flatMap, instructions, List.flatMap_assoc]
    refine List.flatMap_congr fun b hb => List.flatMap_congr fun i hi => ?_
    have hspelled := ((h.blocks b hb).instructions i hi).result
    unfold InstructionDraft.name InstructionDraft.defines
    cases hresult : i.result with
    | none => rfl
    | some v => simp [(hspelled v hresult).1.ne_empty]
  rw [valueNames, definedNames, List.filter_append, hargs, hresults]

theorem mem_definedNames (h : f.Spelled) :
    name ∈ f.definedNames <-> name ∈ f.valueNames ∧ name ≠ "" := by
  rw [← filter_valueNames h, List.mem_filter, bne_iff_ne]

theorem Spelled.ne_empty (h : f.Spelled)
    (hname : name ∈ f.instructions.flatMap InstructionDraft.values) : name ≠ "" := by
  rcases List.mem_flatMap.mp hname with ⟨i, hi, hname⟩
  rcases List.mem_flatMap.mp hi with ⟨b, hb, hi⟩
  exact (((h.blocks b hb).instructions i hi).values name hname).ne_empty

end FunctionDraft

end Tir
end LoopNest
