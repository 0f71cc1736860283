import LoopNest.Proofs.Tir.Lexemes
import LoopNest.Tir.Reader

/-!
# Reading instructions

The readers of operands and instructions agree with the grammar, and they refuse an
instruction whose result is not fresh.  A reader that reaches the end of the text stops
without a fault; the grammar ends an instruction with a line feed or before a brace only, so
the two are compared where a text is left.
-/

namespace LoopNest
namespace Tir

/-!
## Fresh names
-/

/-- No name occurs twice, and none is among the known ones. -/
def Fresh (known names : List String) : Prop :=
  names.Nodup ∧ forall name, name ∈ names -> name ∉ known

@[simp] theorem fresh_nil (known : List String) : Fresh known [] := by
  simp [Fresh]

theorem fresh_append {known xs ys : List String} :
    Fresh known (xs ++ ys) <-> Fresh known xs ∧ Fresh (xs ++ known) ys := by
  simp only [Fresh, List.nodup_append, List.mem_append]
  constructor
  · rintro ⟨⟨hxs, hys, hne⟩, hknown⟩
    refine ⟨⟨hxs, fun x hx => hknown x (Or.inl hx)⟩, hys, fun y hy => ?_⟩
    rintro (hyx | hyk)
    · exact hne y hyx y hy rfl
    · exact hknown y (Or.inr hy) hyk
  · rintro ⟨⟨hxs, hxk⟩, hys, hyk⟩
    refine ⟨⟨hxs, hys, fun x hx y hy heq => ?_⟩, fun z hz => ?_⟩
    · subst heq
      exact hyk x hy (Or.inl hx)
    · rcases hz with hz | hz
      · exact hxk z hz
      · exact fun hknown => hyk z hz (Or.inr hknown)

theorem fresh_singleton {known : List String} {x : String} : Fresh known [x] <-> x ∉ known := by
  simp [Fresh]

theorem fresh_cons {known xs : List String} {x : String} :
    Fresh known (x :: xs) <-> x ∉ known ∧ Fresh (x :: known) xs := by
  have h : Fresh known ([x] ++ xs) <-> _ := fresh_append
  rwa [fresh_singleton] at h

theorem fresh_empty {xs : List String} : Fresh [] xs <-> xs.Nodup := by
  simp [Fresh]

variable {opcode : String} {defined : List String} {cs rest : List Char}
  {os : List Operand} {i : InstructionDraft} {is : List InstructionDraft}

/-!
## Operands
-/

theorem operands_eq (opcode : String) (cs : List Char) :
    operands opcode cs =
      match skipInline cs with
      | [] => .ok ([], [])
      | c :: rest =>
          if c = '%' then
            match identifier rest with
            | .error e => .error e
            | .ok (name, rest) => consItem (.value name) (operands opcode rest)
          else if c = '^' then
            match identifier rest with
            | .error e => .error e
            | .ok (name, rest) => consItem (.block name) (operands opcode rest)
          else if c = ',' then operands opcode rest
          else if c = '\n' ∨ c = '}' then .ok ([], c :: rest)
          else .error (.unexpectedOperand c opcode, c :: rest) := by
  fun_cases operands opcode cs
  all_goals simp [*]

theorem skipInline_line (cs : List Char) : skipInline ('\n' :: cs) = '\n' :: cs := by
  simp [skipInline, skipFrom]

theorem operandsText_of_operands (h : operands opcode cs = .ok (os, rest)) (hrest : rest ≠ []) :
    exists final, OperandsText cs os final ∧ Spaces true rest final := by
  fun_induction operands opcode cs generalizing os rest with
  | case1 => cases h; exact absurd rfl hrest
  | case2 => cases h
  | case3 cs front name afterName hname hskip ih =>
      rcases consItem_eq_ok.mp h with ⟨more, hmore, rfl⟩
      rcases ih hmore hrest with ⟨final, htext, hfinal⟩
      have hspaces := spaces_skipFrom false cs
      rw [← skipInline, hskip] at hspaces
      exact ⟨final, .spaces hspaces (.value (identifier_eq_ok.mp hname) htext), hfinal⟩
  | case4 => cases h
  | case5 cs front name afterName hname hskip hvalue ih =>
      rcases consItem_eq_ok.mp h with ⟨more, hmore, rfl⟩
      rcases ih hmore hrest with ⟨final, htext, hfinal⟩
      have hspaces := spaces_skipFrom false cs
      rw [← skipInline, hskip] at hspaces
      exact ⟨final, .spaces hspaces (.block (identifier_eq_ok.mp hname) htext), hfinal⟩
  | case6 cs front hskip hvalue hblock ih =>
      rcases ih h hrest with ⟨final, htext, hfinal⟩
      have hspaces := spaces_skipFrom false cs
      rw [← skipInline, hskip] at hspaces
      exact ⟨final, .spaces hspaces (.comma htext), hfinal⟩
  | case7 cs c front hskip hvalue hblock hcomma hend =>
      cases h
      have hspaces := spaces_skipFrom false cs
      rw [← skipInline, hskip] at hspaces
      rcases hend with rfl | rfl
      · exact ⟨front, .spaces hspaces (.line front),
          .blank (by decide) (fun _ => rfl) (.none front)⟩
      · exact ⟨_, .spaces hspaces (.brace front), .none _⟩
  | case8 => cases h

theorem operands_of_operandsText (opcode : String) {final : List Char}
    (h : OperandsText cs os final) :
    exists rest, operands opcode cs = .ok (os, rest) ∧ Spaces true rest final := by
  induction h with
  | spaces hspaces _ ih =>
      rcases ih with ⟨rest, hread, hrest⟩
      rw [operands_eq, skipInline, ← skipFrom_of_spaces hspaces, ← skipInline,
        ← operands_eq] at hread
      exact ⟨rest, hread, hrest⟩
  | comma _ ih =>
      rcases ih with ⟨rest, hread, hrest⟩
      refine ⟨rest, ?_, hrest⟩
      rw [operands_eq, skipInline, skipFrom_solid (by decide)]
      simpa using hread
  | value hname _ ih =>
      rcases ih with ⟨rest, hread, hrest⟩
      refine ⟨rest, ?_, hrest⟩
      rw [operands_eq, skipInline, skipFrom_solid (by decide)]
      simp [identifier_eq_ok.mpr hname, hread, consItem, Except.map]
  | block hname _ ih =>
      rcases ih with ⟨rest, hread, hrest⟩
      refine ⟨rest, ?_, hrest⟩
      rw [operands_eq, skipInline, skipFrom_solid (by decide)]
      simp [identifier_eq_ok.mpr hname, hread, consItem, Except.map]
  | line rest =>
      refine ⟨'\n' :: rest, ?_, .blank (by decide) (fun _ => rfl) (.none rest)⟩
      rw [operands_eq, skipInline_line]
      simp
  | brace rest =>
      refine ⟨'}' :: rest, ?_, .none _⟩
      rw [operands_eq, skipInline, skipFrom_solid (by decide)]
      simp

/-!
## Single instructions
-/

theorem accept_eq_ok_iff {j : InstructionDraft} {final : List Char} :
    accept defined i rest = .ok (j, final) <-> j = i ∧ final = rest ∧ Fresh defined i.defines := by
  unfold accept InstructionDraft.defines
  cases i.result with
  | none =>
      simp only [Except.ok.injEq, Prod.mk.injEq, Option.toList_none, List.map_nil, fresh_nil,
        and_true]
      exact and_congr eq_comm eq_comm
  | some v =>
      simp only [Option.toList_some, List.map_cons, List.map_nil, fresh_singleton]
      by_cases hv : v.name ∈ defined
      · simp [hv]
      · simp only [hv, if_false, Except.ok.injEq, Prod.mk.injEq, not_false_eq_true, and_true]
        exact and_congr eq_comm eq_comm

theorem resultText_of_result {v : Option Variable}
    (h : result (skip cs) = .ok (v, rest)) : ResultText (skip cs) v (skip rest) := by
  unfold result at h
  split at h
  · simp only [bind_eq_ok] at h
    rcases h with ⟨⟨w, afterDefinition⟩, hdefinition, afterMark, hmark, h⟩
    cases h
    have htext := definitionText_of_definition hdefinition
    rw [skip_skip] at htext
    exact ResultText.some htext ((expect_eq_ok (by decide)).mp hmark) (spaces_skip _)
  · cases h
    rw [skip_skip]
    exact ResultText.none _

theorem result_of_resultText {v : Option Variable} {final : List Char}
    (h : ResultText cs v final) (hfinal : forall front, final ≠ '%' :: front) :
    exists rest, result cs = .ok (v, rest) ∧ Spaces true rest final := by
  cases h with
  | none =>
      refine ⟨cs, ?_, .none cs⟩
      unfold result
      split
      · exact absurd rfl (hfinal _)
      · rfl
  | some htext hmark hspaces =>
      rename_i before after v
      rcases htext.head with ⟨front, rfl⟩
      have hcolon : before.head? ≠ some ':' := hmark.head?_ne (by decide) (by decide)
      have hdefinition : definition ('%' :: front) = .ok (v, before) := by
        apply definition_of_definitionText _ hcolon
        rwa [skip_solid (by decide)]
      refine ⟨after, ?_, hspaces⟩
      simp only [result, bind_eq_ok]
      exact ⟨(v, before), hdefinition, after, (expect_eq_ok (by decide)).mpr hmark, rfl⟩

theorem instructionText_of_instruction (h : instruction defined (skip cs) = .ok (i, rest))
    (hrest : rest ≠ []) :
    InstructionText (skip cs) i (skip rest) ∧ Fresh defined i.defines := by
  simp only [instruction, bind_eq_ok] at h
  rcases h with ⟨⟨v, afterResult⟩, hresult, ⟨opcode, afterOpcode⟩, hopcode,
    ⟨os, afterOperands⟩, hoperands, h⟩
  rcases accept_eq_ok_iff.mp h with ⟨rfl, rfl, hfresh⟩
  rcases operandsText_of_operands hoperands hrest with ⟨final, htext, hfinal⟩
  refine ⟨?_, hfresh⟩
  apply InstructionText.instruction (resultText_of_result hresult) (word_eq_ok.mp hopcode) htext
  rw [skip_of_spaces hfinal]
  exact spaces_skip final

theorem instruction_of_instructionText {final : List Char} (h : InstructionText cs i final)
    (hfresh : Fresh defined i.defines) :
    exists rest, instruction defined cs = .ok (i, rest) ∧ skip rest = skip final := by
  cases h with
  | instruction hresult hopcode hoperands hspaces =>
      rename_i code more front result opcode os
      rcases hopcode.opens with ⟨c, code, rfl, hopens⟩
      have hpercent : forall front, c :: code ≠ '%' :: front := by
        intro front heq
        cases heq
        exact absurd hopens (by decide)
      rcases result_of_resultText hresult hpercent with ⟨afterResult, hread, hafter⟩
      rcases operands_of_operandsText opcode hoperands with ⟨rest, hos, hrest⟩
      refine ⟨rest, ?_, (skip_of_spaces hrest).trans (skip_of_spaces hspaces)⟩
      simp only [instruction, bind_eq_ok]
      refine ⟨_, hread, _, word_eq_ok.mpr ?_, _, hos, accept_eq_ok_iff.mpr ⟨rfl, rfl, hfresh⟩⟩
      rwa [skip_of_spaces hafter, hopcode.skip_eq]

/-!
## Lists of instructions
-/

theorem endsBlock_label {name : String} {cs rest : List Char}
    (h : NameText cs name (':' :: rest)) : endsBlock cs = true := by
  rcases h.opens with ⟨c, front, rfl, hopens⟩
  have hpercent : c ≠ '%' := by
    rintro rfl
    exact absurd hopens (by decide)
  rw [endsBlock, if_neg hpercent, identifier_eq_ok.mpr h]
  split
  · rfl
  · rfl

theorem operandsText_head {cs final : List Char} (h : OperandsText cs os final) :
    cs.head? ≠ some ':' := by
  induction h with
  | spaces hspaces _ ih =>
      cases hspaces with
      | none => exact ih
      | blank hblank _ _ =>
          intro heq
          cases Option.some.inj heq
          exact absurd hblank (by decide)
      | comment => exact fun heq => absurd (Option.some.inj heq) (by decide)
  | comma => exact fun heq => absurd (Option.some.inj heq) (by decide)
  | value => exact fun heq => absurd (Option.some.inj heq) (by decide)
  | block => exact fun heq => absurd (Option.some.inj heq) (by decide)
  | line => exact fun heq => absurd (Option.some.inj heq) (by decide)
  | brace => exact fun heq => absurd (Option.some.inj heq) (by decide)

/-- An instruction starts with a solid character and is not taken for a label. -/
theorem InstructionText.starts (h : InstructionText cs i rest) :
    skip cs = cs ∧ endsBlock cs = false := by
  cases h with
  | instruction hresult hopcode hoperands _ =>
      cases hresult with
      | none =>
          refine ⟨hopcode.skip_eq, ?_⟩
          have hcolon := operandsText_head hoperands
          rcases hopcode.opens with ⟨c, front, rfl, hopens⟩
          have hbrace : c ≠ '}' := by
            rintro rfl
            exact absurd hopens (by decide)
          rw [endsBlock, if_neg hbrace]
          split
          · rfl
          · rw [identifier_eq_ok.mpr hopcode]
            split
            · rename_i heq
              cases heq
              exact absurd rfl hcolon
            · rfl
      | some htext _ _ =>
          rcases htext.head with ⟨front, rfl⟩
          exact ⟨skip_solid (by decide), rfl⟩

theorem instructions_eq (defined : List String) (cs : List Char) :
    instructions defined cs =
      if endsBlock (skip cs) then .ok ([], skip cs)
      else
        match instruction defined (skip cs) with
        | .error e => .error e
        | .ok (i, rest) => consItem i (instructions (i.defines ++ defined) rest) := by
  fun_cases instructions defined cs
  all_goals simp [*]

theorem instructions_nil (defined : List String) : instructions defined [] = .ok ([], []) := by
  rw [instructions_eq]
  rfl

theorem skip_of_instructions (h : instructions defined cs = .ok (is, rest)) :
    skip rest = rest := by
  fun_induction instructions defined cs generalizing is rest with
  | case1 => cases h; exact skip_skip _
  | case2 => cases h
  | case3 defined cs hend i afterFirst hfirst ih =>
      rcases consItem_eq_ok.mp h with ⟨more, hmore, _⟩
      exact ih hmore

theorem instructionsText_of_instructions (h : instructions defined cs = .ok (is, rest))
    (hrest : rest ≠ []) :
    InstructionsText (skip cs) is rest ∧ Fresh defined (is.flatMap InstructionDraft.defines) := by
  fun_induction instructions defined cs generalizing is rest with
  | case1 defined cs hend =>
      cases h
      exact ⟨InstructionsText.nil _, fresh_nil _⟩
  | case2 => cases h
  | case3 defined cs hend i afterFirst hfirst ih =>
      rcases consItem_eq_ok.mp h with ⟨more, hmore, rfl⟩
      have hafter : afterFirst ≠ [] := by
        rintro rfl
        rw [instructions_nil] at hmore
        cases hmore
        exact hrest rfl
      rcases instructionText_of_instruction hfirst hafter with ⟨htext, hfresh⟩
      rcases ih hmore hrest with ⟨htexts, hfreshes⟩
      rw [List.flatMap_cons]
      exact ⟨InstructionsText.cons htext htexts, fresh_append.mpr ⟨hfresh, hfreshes⟩⟩

theorem instructions_of_instructionsText {front : List Char} (h : InstructionsText cs is rest)
    (hend : endsBlock rest = true) (hskip : skip rest = rest)
    (hfresh : Fresh defined (is.flatMap InstructionDraft.defines)) (hfront : skip front = skip cs) :
    instructions defined front = .ok (is, rest) := by
  induction h generalizing defined front with
  | nil cs =>
      rw [instructions_eq, hfront, hskip, if_pos hend]
  | cons hfirst _ ih =>
      rcases hfirst.starts with ⟨hsolid, hopen⟩
      rw [List.flatMap_cons] at hfresh
      rcases fresh_append.mp hfresh with ⟨hfresh, hfreshes⟩
      rcases instruction_of_instructionText hfirst hfresh with ⟨afterFirst, hread, hafter⟩
      rw [instructions_eq, hfront, hsolid, hopen, if_neg Bool.false_ne_true, hread]
      simp only
      rw [ih hend hskip hfreshes hafter]
      rfl

end Tir
end LoopNest
