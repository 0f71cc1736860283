import LoopNest.Proofs.Tir.Resuming

/-!
# Rounds

Every reader of a list goes round its loop and resumes behind the round.  So what it answers in
front of a round is what the readers inside the round answer, and a reading can go through all of
them without a return.
-/

namespace LoopNest
namespace Tir

variable {cs : List Char}

theorem consItem_bind {alpha beta : Type} (x : alpha) (items : Attempt (List alpha × List Char))
    (f : List alpha × List Char -> Attempt beta) :
    consItem x items >>= f = items >>= fun p => f (x :: p.1, p.2) := by
  cases items with
  | error e => rfl
  | ok p => rfl

theorem Goal.resume_definition (owner : Owner) (cs : List Char) :
    (Goal.definition owner).resume cs = Tir.definition cs >>= fun p => owner.resume p.1 p.2 := by
  change expect '%' cs >>= _ = (expect '%' cs >>= _) >>= _
  cases expect '%' cs with
  | error e => rfl
  | ok afterMark =>
      change identifier afterMark >>= _ = (identifier afterMark >>= _) >>= _
      cases identifier afterMark with
      | error e => rfl
      | ok p => rfl

/-!
## Operands
-/

theorem OpenInstruction.resume_push (i : OpenInstruction) (o : Operand) (cs : List Char) :
    OpenInstruction.resume { i with operands := o :: i.operands } cs =
      consItem o (Tir.operands i.opcode cs) >>= fun p =>
        OpenInstruction.resumeClosed { i with operands := p.1.reverse ++ i.operands } p.2 := by
  rw [consItem_bind]
  simp only [List.reverse_cons, List.append_assoc, List.singleton_append]
  rfl

theorem OpenInstruction.resume_eq (i : OpenInstruction) (cs : List Char) :
    i.resume cs =
      match skipInline cs with
      | [] => i.resumeClosed []
      | c :: rest =>
          if c = '%' then (Role.operand i).resumeName rest
          else if c = '^' then (Role.target i).resumeName rest
          else if c = ',' then i.resume rest
          else if c = '\n' ∨ c = '}' then i.resumeClosed (c :: rest)
          else .error (.unexpectedOperand c i.opcode, c :: rest) := by
  rw [OpenInstruction.resume, operands_eq]
  cases skipInline cs with
  | nil => rfl
  | cons c rest =>
      simp only
      split
      · cases hname : identifier rest with
        | error e => simp [Role.resumeName, hname, bind, Except.bind]
        | ok p =>
            simp only [Role.resumeName, hname]
            exact (i.resume_push (.value p.1) p.2).symm
      · split
        · cases hname : identifier rest with
          | error e => simp [Role.resumeName, hname, bind, Except.bind]
          | ok p =>
              simp only [Role.resumeName, hname]
              exact (i.resume_push (.block p.1) p.2).symm
        · repeat' split
          all_goals rfl

/-!
## Instructions
-/

theorem OpenBlock.resume_push (b : OpenBlock) (i : InstructionDraft) (cs : List Char) :
    OpenBlock.resume { b with instructions := i :: b.instructions } cs =
      consItem i (Tir.instructions (i.defines ++ b.defined) cs) >>= fun p =>
        OpenBody.resume
          { b.toOpenBody with blocks := ⟨b.label, b.instructions.reverse ++ p.1⟩ :: b.blocks }
          p.2 := by
  rw [consItem_bind]
  simp only [OpenBlock.resume, OpenBlock.defined, List.flatMap_cons, List.append_assoc,
    List.reverse_cons, List.singleton_append]

theorem OpenBlock.resumeResult_eq (b : OpenBlock) (cs : List Char) :
    b.resumeResult cs = instruction b.defined (skip cs) >>= fun p =>
      OpenBlock.resume { b with instructions := p.1 :: b.instructions } p.2 := by
  unfold OpenBlock.resumeResult instruction
  cases Tir.result (skip cs) with
  | error e => rfl
  | ok p =>
      change b.resumeOpcode p.1 p.2 = (word p.2 >>= _) >>= _
      unfold OpenBlock.resumeOpcode
      cases word p.2 with
      | error e => rfl
      | ok q =>
          change OpenInstruction.resume ⟨b, p.1, q.1, []⟩ q.2 = (Tir.operands q.1 q.2 >>= _) >>= _
          unfold OpenInstruction.resume
          cases Tir.operands q.1 q.2 with
          | error e => rfl
          | ok r =>
              change OpenInstruction.resumeClosed ⟨b, p.1, q.1, r.1.reverse ++ []⟩ r.2 = _
              rw [List.append_nil, OpenInstruction.resumeClosed, List.reverse_reverse]
              rfl

theorem OpenBlock.resumeResult_head (b : OpenBlock) (cs : List Char) :
    b.resumeResult cs =
      if (skip cs).head? = some '%' then (Goal.definition (.result b)).resume (skip cs)
      else (Goal.word (.opcode b none)).resume (skip cs) := by
  rw [OpenBlock.resumeResult]
  split
  · rename_i hpercent
    rcases List.head?_eq_some_iff.mp hpercent with ⟨front, hskip⟩
    rw [hskip, Goal.resume_definition]
    change (definition ('%' :: front) >>= _) >>= _ = _
    cases definition ('%' :: front) with
    | error e => rfl
    | ok p =>
        change (expect '=' p.2 >>= _) >>= _ = expect '=' p.2 >>= _
        cases expect '=' p.2 with
        | error e => rfl
        | ok rest => rfl
  · rename_i hpercent
    rw [result_of_head? hpercent]
    rfl

theorem OpenBlock.resume_eq (b : OpenBlock) (cs : List Char) :
    b.resume cs =
      if endsBlock (skip cs) then
        OpenBody.resume
          { b.toOpenBody with blocks := ⟨b.label, b.instructions.reverse⟩ :: b.blocks } (skip cs)
      else b.resumeResult cs := by
  rw [OpenBlock.resume, instructions_eq, b.resumeResult_eq]
  split
  · change OpenBody.resume
      { b.toOpenBody with blocks := ⟨b.label, b.instructions.reverse ++ []⟩ :: b.blocks } _ = _
    rw [List.append_nil]
  · cases instruction b.defined (skip cs) with
    | error e => rfl
    | ok p => exact (b.resume_push p.1 p.2).symm

/-!
## Blocks
-/

theorem OpenBody.resume_push (b : OpenBody) (draft : BlockDraft) (cs : List Char) :
    OpenBody.resume { b with blocks := draft :: b.blocks } cs =
      consItem draft (Tir.blocks b.name (draft.label :: b.blocks.map BlockDraft.label)
        (draft.defines ++ b.defined) cs) >>= fun p =>
        OpenBody.resumeClosed { b with blocks := p.1.reverse ++ b.blocks } p.2 := by
  rw [consItem_bind]
  simp only [OpenBody.resume, OpenBody.defined, List.flatMap_cons, List.append_assoc,
    List.reverse_cons, List.singleton_append, List.map_cons]

theorem OpenBody.resumeClosed_of_ne {b : OpenBody} (h : b.blocks ≠ []) :
    b.resumeClosed cs = b.toOpenFunction.resumeClosed (some b.blocks.reverse) cs := by
  rcases b with ⟨f, bs⟩
  cases bs with
  | nil => exact absurd rfl h
  | cons b bs => rfl

theorem OpenBody.resume_label (b : OpenBody) (cs : List Char) :
    (Role.label b).resumeName (skip cs) =
      block (b.blocks.map BlockDraft.label) b.defined cs >>= fun p =>
        OpenBody.resume { b with blocks := p.1 :: b.blocks } p.2 := by
  change word cs >>= _ = _
  cases hname : word cs with
  | error e =>
      unfold block
      rw [hname]
      rfl
  | ok p =>
      rcases p with ⟨label, behind⟩
      change (Role.label b).resume label behind = _
      rw [Role.resume]
      split
      · rename_i hcolon
        rcases List.head?_eq_some_iff.mp hcolon with ⟨rest, rfl⟩
        unfold block
        rw [hname]
        simp only [OpenBody.resumeLabelled, List.tail_cons]
        split
        · rfl
        · change Tir.instructions b.defined rest >>= _ = _
          cases Tir.instructions b.defined rest with
          | error e => rfl
          | ok q => rfl
      · rename_i hcolon
        rw [block_of_head? hname hcolon]
        rfl

theorem OpenBody.resume_eq (b : OpenBody) (cs : List Char) :
    b.resume cs =
      match skip cs with
      | [] => .error (.unterminatedBody b.name, [])
      | c :: rest =>
          if c = '}' then b.resumeClosed rest
          else (Role.label b).resumeName (skip (c :: rest)) := by
  rw [OpenBody.resume, blocks_eq]
  cases skip cs with
  | nil => rfl
  | cons c rest =>
      simp only
      split
      · rfl
      · rw [b.resume_label]
        cases block (b.blocks.map BlockDraft.label) b.defined (c :: rest) with
        | error e => rfl
        | ok p => exact (b.resume_push p.1 p.2).symm

/-!
## Arguments
-/

theorem OpenFunction.resume_push (f : OpenFunction) (v : Variable) (cs : List Char) :
    OpenFunction.resume { f with arguments := v :: f.arguments } cs =
      consItem v (Tir.arguments (v.name :: f.arguments.map Variable.name) cs) >>= fun p =>
        OpenFunction.resumeEnding { f with arguments := p.1.reverse ++ f.arguments } p.2 := by
  rw [consItem_bind]
  simp only [OpenFunction.resume, List.reverse_cons, List.append_assoc, List.singleton_append,
    List.map_cons]

theorem OpenFunction.resume_eq (f : OpenFunction) (cs : List Char) :
    f.resume cs =
      if (skip cs).head? = some ')' then f.resumeEnding (skip cs).tail
      else (Goal.definition (.argument f)).resume cs := by
  rw [OpenFunction.resume]
  split
  · rename_i hclose
    rcases List.head?_eq_some_iff.mp hclose with ⟨rest, hskip⟩
    rw [arguments_close _ hskip, hskip]
    rfl
  · rename_i hclose
    rw [arguments_open _ hclose, Goal.resume_definition]
    cases definition cs with
    | error e => rfl
    | ok p =>
        change _ = (Owner.argument f).resume p.1 p.2
        rw [Owner.resume]
        simp only
        split
        · rfl
        · split
          · rename_i hskip
            rw [OpenFunction.resumeSeparator, hskip, List.head?_cons, if_pos rfl]
            exact (f.resume_push p.1 _).symm
          · rename_i hskip
            rw [OpenFunction.resumeSeparator, hskip, List.head?_cons, if_neg (by decide),
              if_pos rfl]
            exact (f.resume_push p.1 _).symm
          · rename_i hcomma hclose
            have hne : forall c, (forall rest, skip p.2 = c :: rest -> False) ->
                (skip p.2).head? ≠ some c := by
              intro c hc hhead
              rcases List.head?_eq_some_iff.mp hhead with ⟨rest, hskip⟩
              exact hc rest hskip
            rw [OpenFunction.resumeSeparator, if_neg (hne _ hcomma), if_neg (hne _ hclose)]
            rfl

theorem OpenFunction.resumeEnding_eq (f : OpenFunction) (cs : List Char) :
    f.resumeEnding cs =
      if (skip cs).head? = some '!' then f.resumeClosed none (skip cs).tail
      else (Goal.body f).resume cs := by
  rw [OpenFunction.resumeEnding]
  split
  · rename_i hmark
    rcases List.head?_eq_some_iff.mp hmark with ⟨rest, hskip⟩
    unfold ending
    rw [hskip]
    rfl
  · rename_i hmark
    rw [ending_open _ _ hmark]
    change (expect '{' cs >>= _) >>= _ = expect '{' cs >>= _
    cases expect '{' cs with
    | error e => rfl
    | ok rest =>
        change (body f.name f.arguments.reverse rest >>= _) >>= _ =
          Tir.blocks f.name [] (f.arguments.reverse.map Variable.name) rest >>= _
        unfold body
        cases Tir.blocks f.name [] (f.arguments.reverse.map Variable.name) rest with
        | error e => rfl
        | ok p =>
            rcases p with ⟨bs, behind⟩
            change _ = OpenBody.resumeClosed ⟨f, bs.reverse ++ []⟩ behind
            rw [List.append_nil]
            cases bs with
            | nil => rfl
            | cons b bs =>
                rw [OpenBody.resumeClosed_of_ne (by simp)]
                simp only [List.reverse_reverse]
                rfl

/-!
## Functions
-/

theorem resumeFunctions_push (fs : List FunctionDraft) (f : FunctionDraft) (cs : List Char) :
    resumeFunctions (f :: fs) cs =
      ((functions (f.name :: fs.map FunctionDraft.name) cs).map (f :: ·)).map
        (fs.reverse ++ ·) := by
  unfold resumeFunctions
  rw [List.map_cons]
  cases functions (f.name :: fs.map FunctionDraft.name) cs with
  | error e => rfl
  | ok gs => simp [Except.map]

theorem resume_function (fs : List FunctionDraft) (cs : List Char) :
    (Role.function fs).resumeName (skip cs) =
      function (fs.map FunctionDraft.name) cs >>= fun p => resumeFunctions (p.1 :: fs) p.2 := by
  change word cs >>= _ = _
  unfold function freshName
  cases word cs with
  | error e => rfl
  | ok p =>
      rcases p with ⟨name, afterName⟩
      change (Role.function fs).resume name afterName = _
      rw [Role.resume]
      simp only
      split
      · rfl
      · change expect '(' afterName >>= _ = (expect '(' afterName >>= _) >>= _
        cases expect '(' afterName with
        | error e => rfl
        | ok afterMark =>
            change arguments [] afterMark >>= _ = (arguments [] afterMark >>= _) >>= _
            cases arguments [] afterMark with
            | error e => rfl
            | ok q =>
                change OpenFunction.resumeEnding ⟨fs, name, q.1.reverse ++ []⟩ q.2 =
                  (ending name q.1 q.2 >>= _) >>= _
                rw [List.append_nil, OpenFunction.resumeEnding, List.reverse_reverse]
                cases ending name q.1 q.2 with
                | error e => rfl
                | ok r =>
                    change OpenFunction.resumeClosed ⟨fs, name, q.1.reverse⟩ r.1 r.2 = _
                    rw [OpenFunction.resumeClosed, List.reverse_reverse]
                    rfl

theorem resumeFunctions_eq (fs : List FunctionDraft) (cs : List Char) :
    resumeFunctions fs cs =
      match skip cs with
      | [] => .ok fs.reverse
      | c :: rest => (Role.function fs).resumeName (skip (c :: rest)) := by
  rw [resumeFunctions, functions_eq]
  cases skip cs with
  | nil => exact congrArg Except.ok (List.append_nil _)
  | cons c rest =>
      simp only
      rw [resume_function]
      cases function (fs.map FunctionDraft.name) (c :: rest) with
      | error e => rfl
      | ok p => exact (resumeFunctions_push fs p.1 p.2).symm

end Tir
end LoopNest
