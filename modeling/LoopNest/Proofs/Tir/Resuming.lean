import LoopNest.Proofs.Tir.Cursors
import LoopNest.Proofs.Tir.Layout

/-!
# Resuming a reading

Behind every point, the readers of functions can take over from the cursor.  What they answer from
there does not change from step to step, so a cursor at its end holds what they answer for the
whole text.
-/

namespace LoopNest
namespace Tir

/-!
## The rest of a reading
-/

def resumeFunctions (fs : List FunctionDraft) (cs : List Char) : Attempt (List FunctionDraft) :=
  (functions (fs.map FunctionDraft.name) cs).map (fs.reverse ++ ·)

def OpenFunction.resumeClosed (f : OpenFunction) (body : Option (List BlockDraft))
    (cs : List Char) : Attempt (List FunctionDraft) := do
  let (draft, rest) <- resolve ⟨f.name, f.arguments.reverse, body⟩ cs
  resumeFunctions (draft :: f.before) rest

def OpenBody.resumeClosed (b : OpenBody) (cs : List Char) : Attempt (List FunctionDraft) :=
  match b.blocks with
  | [] => .error (.emptyBody b.name, cs)
  | _ :: _ => b.toOpenFunction.resumeClosed (some b.blocks.reverse) cs

def OpenBody.resume (b : OpenBody) (cs : List Char) : Attempt (List FunctionDraft) := do
  let (bs, rest) <- Tir.blocks b.name (b.blocks.map BlockDraft.label) b.defined cs
  OpenBody.resumeClosed { b with blocks := bs.reverse ++ b.blocks } rest

def OpenBlock.resume (b : OpenBlock) (cs : List Char) : Attempt (List FunctionDraft) := do
  let (is, rest) <- Tir.instructions b.defined cs
  OpenBody.resume
    { b.toOpenBody with blocks := ⟨b.label, b.instructions.reverse ++ is⟩ :: b.blocks } rest

def OpenInstruction.resumeClosed (i : OpenInstruction) (cs : List Char) :
    Attempt (List FunctionDraft) := do
  let (draft, rest) <- accept i.defined ⟨i.result, i.opcode, i.operands.reverse⟩ cs
  OpenBlock.resume { i.toOpenBlock with instructions := draft :: i.instructions } rest

def OpenInstruction.resume (i : OpenInstruction) (cs : List Char) :
    Attempt (List FunctionDraft) := do
  let (os, rest) <- Tir.operands i.opcode cs
  OpenInstruction.resumeClosed { i with operands := os.reverse ++ i.operands } rest

def OpenBlock.resumeOpcode (b : OpenBlock) (result : Option Variable) (cs : List Char) :
    Attempt (List FunctionDraft) := do
  let (opcode, rest) <- word cs
  OpenInstruction.resume ⟨b, result, opcode, []⟩ rest

def OpenBlock.resumeResult (b : OpenBlock) (cs : List Char) : Attempt (List FunctionDraft) := do
  let (result, rest) <- Tir.result (skip cs)
  b.resumeOpcode result rest

def OpenFunction.resumeEnding (f : OpenFunction) (cs : List Char) :
    Attempt (List FunctionDraft) := do
  let (body, rest) <- ending f.name f.arguments.reverse cs
  f.resumeClosed body rest

def OpenFunction.resume (f : OpenFunction) (cs : List Char) : Attempt (List FunctionDraft) := do
  let (vs, rest) <- Tir.arguments (f.arguments.map Variable.name) cs
  OpenFunction.resumeEnding { f with arguments := vs.reverse ++ f.arguments } rest

def OpenFunction.resumeSeparator (f : OpenFunction) (cs : List Char) :
    Attempt (List FunctionDraft) :=
  if (skip cs).head? = some ',' then f.resume (skip cs).tail
  else if (skip cs).head? = some ')' then f.resume (skip cs)
  else .error (.openArguments, skip cs)

def Owner.resume : Owner -> Variable -> List Char -> Attempt (List FunctionDraft)
  | argument f, v, cs =>
      if v.name ∈ f.arguments.map Variable.name then .error (.duplicateArgument v.name, cs)
      else OpenFunction.resumeSeparator { f with arguments := v :: f.arguments } cs
  | result b, v, cs => do
      let rest <- expect '=' cs
      b.resumeOpcode (some v) rest

def OpenBody.resumeLabelled (b : OpenBody) (label : String) (cs : List Char) :
    Attempt (List FunctionDraft) :=
  if label ∈ b.blocks.map BlockDraft.label then .error (.duplicateBlock label, cs)
  else OpenBlock.resume ⟨b, label, []⟩ cs

def Role.resume : Role -> String -> List Char -> Attempt (List FunctionDraft)
  | function fs, name, cs =>
      if name ∈ fs.map FunctionDraft.name then .error (.duplicateFunction name, cs)
      else do
        let rest <- expect '(' cs
        OpenFunction.resume ⟨fs, name, []⟩ rest
  | value owner, name, cs => do
      let (v, rest) <- typing name cs
      owner.resume v rest
  | type owner valueName, name, cs =>
      match ValueType.ofAnnotation? name with
      | none => .error (.unknownType name, cs)
      | some valueType => owner.resume ⟨valueName, valueType⟩ cs
  | label b, name, cs =>
      if cs.head? = some ':' then b.resumeLabelled name cs.tail
      else .error (.expectedLabel name, cs)
  | opcode b result, name, cs => OpenInstruction.resume ⟨b, result, name, []⟩ cs
  | operand i, name, cs =>
      OpenInstruction.resume { i with operands := .value name :: i.operands } cs
  | target i, name, cs =>
      OpenInstruction.resume { i with operands := .block name :: i.operands } cs

def Role.resumeName (role : Role) (cs : List Char) : Attempt (List FunctionDraft) := do
  let (name, rest) <- identifier cs
  role.resume name rest

/-- In front of the blanks before a goal, or behind them. -/
def Goal.resume : Goal -> List Char -> Attempt (List FunctionDraft)
  | function fs, cs => resumeFunctions fs cs
  | opened fs name, cs => do
      let rest <- expect '(' cs
      OpenFunction.resume ⟨fs, name, []⟩ rest
  | argument f, cs => f.resume cs
  | definition owner, cs => do
      let rest <- expect '%' cs
      (Role.value owner).resumeName rest
  | separator f, cs => f.resumeSeparator cs
  | ending f, cs => f.resumeEnding cs
  | body f, cs => do
      let rest <- expect '{' cs
      OpenBody.resume ⟨f, []⟩ rest
  | block b, cs => b.resume cs
  | instruction b, cs => b.resume cs
  | result b, cs => b.resumeResult cs
  | equals b v, cs => do
      let rest <- expect '=' cs
      b.resumeOpcode (some v) rest
  | operand i, cs => i.resume cs
  | word role, cs => role.resumeName (skip cs)

/-- At a point, where `cs` is left of the text. -/
def Point.resume (text : String) : Point -> List Char -> Attempt (List FunctionDraft)
  | seek goal comment, cs => goal.resume (skipFrom goal.lines comment cs)
  | opening role, cs => role.resumeName cs
  | further role front, cs =>
      role.resume (String.ofList (front.reverse ++ cs.takeWhile continuesIdentifier))
        (cs.dropWhile continuesIdentifier)
  | named owner value, cs => do
      let (v, rest) <- typing value cs
      owner.resume v rest
  | colon b label, cs => (Role.label b).resume label cs
  | ahead b start, _ => b.resume ((Text.behind? text.toList start).getD [])
  | done fs, _ => .ok fs
  | failed fault, cs => .error (fault, cs)

def Turn.resume (text : String) (cs : List Char) : Turn -> Attempt (List FunctionDraft)
  | stay p => p.resume text cs
  | take p => p.resume text cs.tail
  | back start p => p.resume text ((Text.behind? text.toList start).getD [])

/-!
## Blanks
-/

variable {text : String}

theorem expect_skip (mark : Char) (cs : List Char) : expect mark (skip cs) = expect mark cs := by
  rw [expect, skip_skip, expect]

theorem definition_skip (cs : List Char) : definition (skip cs) = definition cs := by
  rw [definition, expect_skip, definition]

theorem skipInline_skipInline (cs : List Char) : skipInline (skipInline cs) = skipInline cs :=
  (skipFrom_of_spaces (spaces_skipFrom false cs)).symm

theorem Goal.resume_skip (goal : Goal) (cs : List Char) :
    goal.resume (skipFrom goal.lines false cs) = goal.resume cs := by
  cases goal with
  | function fs =>
      have hskip : functions (fs.map FunctionDraft.name) (skip cs) =
          functions (fs.map FunctionDraft.name) cs := functions_of_skip (skip_skip cs)
      change (functions _ (skip cs)).map _ = _
      rw [hskip]
      rfl
  | opened fs name =>
      change (expect '(' (skip cs) >>= _) = _
      rw [expect_skip]
      rfl
  | argument f =>
      change (Tir.arguments _ (skip cs) >>= _) = _
      rw [arguments_eq, skip_skip, definition_skip, ← arguments_eq]
      rfl
  | definition owner =>
      change (expect '%' (skip cs) >>= _) = _
      rw [expect_skip]
      rfl
  | separator f =>
      change f.resumeSeparator (skip cs) = _
      rw [OpenFunction.resumeSeparator, skip_skip]
      rfl
  | ending f =>
      have hskip : Tir.ending f.name f.arguments.reverse (skip cs) =
          Tir.ending f.name f.arguments.reverse cs := by
        rw [Tir.ending, skip_skip, expect_skip, Tir.ending]
      change (Tir.ending _ _ (skip cs) >>= _) = _
      rw [hskip]
      rfl
  | body f =>
      change (expect '{' (skip cs) >>= _) = _
      rw [expect_skip]
      rfl
  | block b =>
      change (Tir.blocks _ _ _ (skip cs) >>= _) = _
      rw [blocks_eq, skip_skip, ← blocks_eq]
      rfl
  | instruction b =>
      change (Tir.instructions _ (skip cs) >>= _) = _
      rw [instructions_eq, skip_skip, ← instructions_eq]
      rfl
  | result b =>
      change (Tir.result (skip (skip cs)) >>= _) = _
      rw [skip_skip]
      rfl
  | equals b v =>
      change (expect '=' (skip cs) >>= _) = _
      rw [expect_skip]
      rfl
  | operand i =>
      change (Tir.operands _ (skipInline cs) >>= _) = _
      rw [operands_eq, skipInline_skipInline, ← operands_eq]
      rfl
  | word role =>
      change role.resumeName (skip (skip cs)) = _
      rw [skip_skip]
      rfl

@[simp] theorem Goal.resume_point (goal : Goal) (cs : List Char) :
    goal.point.resume text cs = goal.resume cs :=
  goal.resume_skip cs

/-!
## Points that a turn leads to
-/

theorem OpenFunction.resume_close (f : OpenFunction) (body : Option (List BlockDraft))
    (cs : List Char) : (f.close body).resume text cs = f.resumeClosed body cs := by
  simp only [OpenFunction.close, OpenFunction.resumeClosed, resolve]
  generalize FunctionDraft.mk f.name f.arguments.reverse body = draft
  cases draft.undefinedValue? with
  | some name => rfl
  | none =>
      cases draft.undefinedBlock? with
      | some name => rfl
      | none => exact Goal.resume_point _ cs

theorem OpenBody.resume_close (b : OpenBody) (cs : List Char) :
    b.close.resume text cs = b.resumeClosed cs := by
  rcases b with ⟨f, bs⟩
  cases bs with
  | nil => rfl
  | cons b bs => exact f.resume_close _ cs

theorem OpenBlock.resume_close (b : OpenBlock) (cs : List Char) :
    b.close.resume text cs =
      OpenBody.resume { b.toOpenBody with blocks := ⟨b.label, b.instructions.reverse⟩ :: b.blocks }
        cs :=
  Goal.resume_point _ cs

theorem OpenInstruction.resume_close (i : OpenInstruction) (cs : List Char) :
    i.close.resume text cs = i.resumeClosed cs := by
  rcases i with ⟨b, result, opcode, os⟩
  cases result with
  | none => exact Goal.resume_point _ cs
  | some v =>
      simp only [OpenInstruction.close, OpenInstruction.resumeClosed, accept]
      by_cases hv : v.name ∈ b.defined
      · rw [if_pos hv, if_pos hv]
        rfl
      · rw [if_neg hv, if_neg hv]
        exact Goal.resume_point _ cs

theorem Owner.resume_defines (owner : Owner) (v : Variable) (cs : List Char) :
    (owner.defines v).resume text cs = owner.resume v cs := by
  cases owner with
  | argument f =>
      rw [Owner.defines, Owner.resume]
      split
      · rfl
      · exact Goal.resume_point _ cs
  | result b => exact Goal.resume_point _ cs

theorem Role.resume_names (role : Role) (name : String) (cs : List Char) :
    (role.names name).resume text cs = role.resume name cs := by
  cases role with
  | function fs =>
      rw [Role.names, Role.resume]
      split
      · rfl
      · exact Goal.resume_point _ cs
  | type owner valueName =>
      rw [Role.names, Role.resume]
      cases ValueType.ofAnnotation? name with
      | none => rfl
      | some valueType => exact owner.resume_defines _ cs
  | value | label => rfl
  | opcode | operand | target => exact Goal.resume_point _ cs

theorem OpenBody.resume_labelled (b : OpenBody) (label : String) (cs : List Char) :
    (b.labelled label).resume text cs = b.resumeLabelled label cs := by
  unfold OpenBody.labelled OpenBody.resumeLabelled
  split
  · rfl
  · exact Goal.resume_point _ cs

end Tir
end LoopNest
