import LoopNest.Proofs.Tir.Joining
import LoopNest.Proofs.Tir.Rounds
import LoopNest.Proofs.Tir.Runs

/-!
# Progress of reading

Every run of the reader ends, and it ends as the reader does.
-/

namespace LoopNest
namespace Tir

/-!
## Outcomes

A turn leads to a point behind which the readers of functions answer what they answered before it.
So a cursor at its end holds what they answer for the whole text.
-/

variable {text : String} {cs rest : List Char}

/-!
### Turns
-/

theorem Turn.resume_stay (goal : Goal) (cs : List Char) :
    (Turn.stay goal.point).resume text cs = goal.resume cs :=
  goal.resume_skip cs

theorem Turn.resume_take (goal : Goal) (cs : List Char) :
    (Turn.take goal.point).resume text cs = goal.resume cs.tail :=
  goal.resume_skip cs.tail

theorem Turn.resume_mark {wanted : Char} {p : Point} (hskip : skip cs = cs) :
    (Turn.mark wanted cs.head? p).resume text cs =
      expect wanted cs >>= fun rest => p.resume text rest := by
  unfold expect Turn.mark
  rw [hskip]
  cases cs with
  | nil => rfl
  | cons c cs =>
      simp only [List.head?_cons, Option.some.injEq]
      split
      · rfl
      · rfl

theorem Role.resume_turn (role : Role) (cs : List Char) :
    (role.turn cs.head?).resume text cs = role.resumeName cs := by
  cases cs with
  | nil => rfl
  | cons c cs =>
      simp only [Role.turn, List.head?_cons, Role.resumeName, identifier]
      split
      · rfl
      · rfl

theorem OpenBlock.resume_of_ends {b : OpenBlock} (hskip : skip cs = cs)
    (hends : endsBlock cs = true) : b.close.resume text cs = b.resume cs := by
  rw [b.resume_close, b.resume_eq, hskip, if_pos hends]

theorem OpenBlock.resume_of_not_ends {b : OpenBlock} (hskip : skip cs = cs)
    (hends : endsBlock cs = false) : (Goal.result b).point.resume text cs = b.resume cs := by
  rw [Goal.resume_point, b.resume_eq, hskip, hends, if_neg Bool.false_ne_true]
  rfl

/-!
### Goals

Behind the blanks, the turn at a goal does what the reader of the goal does.
-/

theorem resume_function_turn {fs : List FunctionDraft} {pos : Nat} (hskip : skip cs = cs) :
    ((Goal.function fs).turn pos cs.head?).resume text cs = resumeFunctions fs cs := by
  rw [resumeFunctions_eq, hskip]
  cases cs with
  | nil => rfl
  | cons c cs => exact Turn.resume_stay (.word (.function fs)) _

theorem OpenFunction.resume_argument_turn {f : OpenFunction} {pos : Nat} (hskip : skip cs = cs) :
    ((Goal.argument f).turn pos cs.head?).resume text cs = f.resume cs := by
  rw [f.resume_eq, hskip, Goal.turn]
  split
  · exact Turn.resume_take _ cs
  · exact Turn.resume_stay _ cs

theorem OpenFunction.resume_separator_turn {f : OpenFunction} {pos : Nat} (hskip : skip cs = cs) :
    ((Goal.separator f).turn pos cs.head?).resume text cs = f.resumeSeparator cs := by
  rw [OpenFunction.resumeSeparator, hskip, Goal.turn]
  split
  · exact Turn.resume_take _ cs
  · split
    · exact Turn.resume_stay _ cs
    · rfl

theorem OpenFunction.resume_ending_turn {f : OpenFunction} {pos : Nat} (hskip : skip cs = cs) :
    ((Goal.ending f).turn pos cs.head?).resume text cs = f.resumeEnding cs := by
  rw [f.resumeEnding_eq, hskip, Goal.turn]
  split
  · change (f.close none).resume text cs.tail = _
    exact f.resume_close none _
  · exact Turn.resume_stay _ cs

theorem OpenBody.resume_turn {b : OpenBody} {pos : Nat} (hskip : skip cs = cs) :
    ((Goal.block b).turn pos cs.head?).resume text cs = b.resume cs := by
  rw [b.resume_eq, hskip, Goal.turn]
  cases cs with
  | nil => rfl
  | cons c cs =>
      simp only [List.head?_cons, Option.some.injEq, reduceCtorEq, if_false]
      split
      · exact b.resume_close cs
      · exact Turn.resume_stay (.word (.label b)) _

/-- The look-ahead is only needed for the first character of an identifier. -/
theorem OpenBlock.resume_turn {b : OpenBlock} {pos : Nat} (hskip : skip cs = cs)
    (hrest : Text.behind? text.toList pos = some cs) :
    ((Goal.instruction b).turn pos cs.head?).resume text cs = b.resume cs := by
  have hends : endsBlock cs = true -> b.close.resume text cs = b.resume cs :=
    OpenBlock.resume_of_ends hskip
  have hcode : endsBlock cs = false -> (Goal.result b).point.resume text cs = b.resume cs :=
    OpenBlock.resume_of_not_ends hskip
  cases cs with
  | nil => exact hends rfl
  | cons c cs =>
      simp only [Goal.turn, List.head?_cons]
      split
      · rename_i hbrace
        exact hends (by rw [endsBlock, if_pos hbrace])
      · rename_i hbrace
        have hrefused := Cursor.endsBlock_of_percent_or_refused hbrace
        split
        · rename_i hpercent
          exact hcode (hrefused (Or.inl hpercent) cs)
        · split
          · change b.resume ((Text.behind? text.toList pos).getD []) = _
            rw [hrest, Option.getD_some]
          · rename_i hopens
            exact hcode (hrefused (Or.inr (eq_false_of_ne_true hopens)) cs)

theorem OpenBlock.resume_result_turn {b : OpenBlock} {pos : Nat} (hskip : skip cs = cs) :
    ((Goal.result b).turn pos cs.head?).resume text cs = b.resumeResult cs := by
  rw [b.resumeResult_head, hskip, Goal.turn]
  split
  · exact Turn.resume_stay _ cs
  · exact Turn.resume_stay _ cs

theorem OpenInstruction.resume_turn {i : OpenInstruction} {pos : Nat}
    (hskip : skipInline cs = cs) :
    ((Goal.operand i).turn pos cs.head?).resume text cs = i.resume cs := by
  rw [i.resume_eq, hskip]
  cases cs with
  | nil => exact i.resume_close []
  | cons c cs =>
      simp only [Goal.turn, List.head?_cons]
      split
      · rfl
      · split
        · rfl
        · split
          · exact Turn.resume_take _ _
          · split
            · exact i.resume_close _
            · rfl

theorem Goal.resume_turn (goal : Goal) {pos : Nat}
    (hskip : skipFrom goal.lines false cs = cs)
    (hrest : Text.behind? text.toList pos = some cs) :
    (goal.turn pos cs.head?).resume text cs = goal.resume cs := by
  cases goal with
  | function fs => exact resume_function_turn hskip
  | opened | body | equals =>
      refine (Turn.resume_mark hskip).trans ?_
      simp only [Goal.resume_point]
      rfl
  | definition owner => exact Turn.resume_mark hskip
  | argument f => exact OpenFunction.resume_argument_turn hskip
  | separator f => exact OpenFunction.resume_separator_turn hskip
  | ending f => exact OpenFunction.resume_ending_turn hskip
  | block b => exact OpenBody.resume_turn hskip
  | instruction b => exact OpenBlock.resume_turn hskip hrest
  | result b => exact OpenBlock.resume_result_turn hskip
  | operand i => exact OpenInstruction.resume_turn hskip
  | word role =>
      have hskip : skip cs = cs := hskip
      change _ = role.resumeName (skip cs)
      rw [hskip]
      exact role.resume_turn cs

theorem Goal.resume_seek (goal : Goal) (comment : Bool) {pos : Nat}
    (hrest : Text.behind? text.toList pos = some cs) :
    (goal.seek comment pos cs.head?).resume text cs =
      goal.resume (skipFrom goal.lines comment cs) := by
  cases cs with
  | nil =>
      have hnil : skipFrom goal.lines false [] = [] := by simp [skipFrom]
      have hnil' : skipFrom goal.lines comment [] = [] := by simp [skipFrom]
      rw [hnil']
      exact goal.resume_turn hnil hrest
  | cons c cs =>
      simp only [Goal.seek, List.head?_cons]
      rw [skipFrom]
      split
      · rename_i hline
        subst hline
        split
        · rfl
        · rename_i hlines
          refine goal.resume_turn ?_ hrest
          simp [skipFrom, hlines]
      · split
        · rfl
        · rename_i hblank
          split
          · rfl
          · rename_i hsemicolon
            rw [Bool.not_eq_true, Bool.or_eq_false_iff] at hblank
            exact goal.resume_turn (skipFrom_solid ⟨hblank.2, hsemicolon⟩) hrest

/-!
### Steps
-/

theorem Owner.resume_type (owner : Owner) (value : String) (cs : List Char) :
    (typing value cs >>= fun p => owner.resume p.1 p.2) =
      if cs.head? = some ':' then (Role.type owner value).resumeName cs.tail
      else owner.resume ⟨value, .scalar⟩ cs := by
  split
  · rename_i hcolon
    rcases List.head?_eq_some_iff.mp hcolon with ⟨rest, rfl⟩
    unfold typing Role.resumeName
    simp only [List.tail_cons]
    cases identifier rest with
    | error e => rfl
    | ok p =>
        change _ = (Role.type owner value).resume p.1 p.2
        rw [Role.resume]
        simp only
        cases ValueType.ofAnnotation? p.1 with
        | none => rfl
        | some valueType => rfl
  · rename_i hcolon
    rw [typing_of_head? hcolon]
    rfl

namespace Cursor

variable {s t : Cursor} {turn : Turn}

/-- What the readers of functions answer when they take over from the cursor. -/
def resume (text : String) (s : Cursor) : Attempt (List FunctionDraft) :=
  s.point.resume text ((Text.behind? text.toList s.pos).getD [])

theorem resume_of_behind? {pos : Nat} {p : Point}
    (hrest : Text.behind? text.toList pos = some rest) :
    Cursor.resume text ⟨pos, p⟩ = p.resume text rest := by
  rw [resume, hrest, Option.getD_some]

theorem resume_after (turn : Turn) (hrest : Text.behind? text.toList s.pos = some rest) :
    (s.after rest.head? turn).resume text = turn.resume text rest := by
  cases turn with
  | stay p => exact resume_of_behind? hrest
  | take p =>
      cases rest with
      | nil => exact resume_of_behind? hrest
      | cons c rest => exact resume_of_behind? (Text.behind?_next hrest)
  | back start p => rfl

theorem resume_further {pos : Nat} {role : Role} {front : List Char}
    (hturn : (Cursor.mk pos (.further role front)).turn? rest.head? = some turn) :
    turn.resume text rest = (Point.further role front).resume text rest := by
  cases rest with
  | nil =>
      cases hturn
      rw [Point.resume, List.takeWhile_nil, List.append_nil]
      exact role.resume_names _ _
  | cons c rest =>
      by_cases hc : continuesIdentifier c = true
      · simp only [turn?, List.head?_cons, Option.filter_some, hc, if_true] at hturn
        cases hturn
        change (Point.further role (c :: front)).resume text rest = _
        simp [Point.resume, hc]
      · simp only [turn?, List.head?_cons, Option.filter_some, hc] at hturn
        cases hturn
        rw [Point.resume, List.takeWhile_cons_of_neg hc, List.dropWhile_cons_of_neg hc,
          List.append_nil]
        exact role.resume_names _ _

/-- A look-ahead goes back with the answer that the reader of instructions looks for. -/
theorem Peeks.resume_back {b : OpenBlock} {start : Nat} (h : Peeks text s b start)
    (hrest : Text.behind? text.toList s.pos = some rest)
    (hend : forall c, rest.head? = some c -> continuesIdentifier c = false) :
    (Turn.back start (if rest.head? = some ':' then b.close else (Goal.result b).point)).resume
        text rest = (Point.ahead b start).resume text rest := by
  rcases h.verdict hrest hend with ⟨c, cs, hstart, hopens, hends⟩
  have hskip : skip (c :: cs) = c :: cs := skip_solid (solid_of_opens hopens)
  rw [Turn.resume, Point.resume, hstart, Option.getD_some]
  split
  · rename_i hcolon
    exact OpenBlock.resume_of_ends hskip (by rw [hends, hcolon, beq_self_eq_true])
  · rename_i hcolon
    exact OpenBlock.resume_of_not_ends hskip (by rwa [hends, beq_eq_false_iff_ne])

theorem Placed.resume_turn (h : Placed text s)
    (hrest : Text.behind? text.toList s.pos = some rest)
    (hturn : s.turn? rest.head? = some turn) : turn.resume text rest = s.resume text := by
  rcases s with ⟨pos, p⟩
  rw [resume_of_behind? hrest]
  cases p with
  | seek goal comment =>
      cases hturn
      exact goal.resume_seek comment hrest
  | opening role =>
      cases hturn
      exact role.resume_turn rest
  | further role front => exact resume_further hturn
  | named owner value =>
      simp only [turn?, ← apply_ite some] at hturn
      cases hturn
      refine Eq.trans ?_ (owner.resume_type value rest).symm
      split
      · rfl
      · exact owner.resume_defines _ rest
  | colon b label =>
      simp only [turn?, ← apply_ite some] at hturn
      cases hturn
      change _ = (Role.label b).resume label rest
      rw [Role.resume]
      split
      · exact b.resume_labelled label _
      · rfl
  | ahead b start =>
      simp only [turn?, ← apply_ite some, ← apply_ite (Turn.back start)] at hturn
      split at hturn
      · cases hturn
        rfl
      · rename_i hfound
        cases hturn
        refine (h.peeks b start rfl).resume_back hrest fun c hc => ?_
        simpa [hc] using hfound
  | done | failed => cases hturn

theorem Step.resume_eq (hs : Placed text s) (h : Step text s t) :
    t.resume text = s.resume text := by
  cases h with
  | turn hrest hturn => exact (resume_after _ hrest).trans (hs.resume_turn hrest hturn)

theorem Run.resume_eq (h : Run text s) : s.resume text = functions [] text.toList := by
  induction h with
  | refl =>
      have hrest : Text.behind? text.toList 0 = some text.toList :=
        Text.behind?_byteCount [] text.toList
      rw [start, resume_of_behind? hrest, Goal.resume_point]
      change (functions [] text.toList).map ([] ++ ·) = _
      cases functions [] text.toList with
      | error e => rfl
      | ok fs => rfl
  | tail hrun hstep ih => exact (hstep.resume_eq (Run.placed hrun)).trans ih

/-- A reading ends with the module of the text, or with its fault and the line of the fault. -/
theorem Run.result?_eq (h : Run text s) (hend : s.Halted) :
    s.result? text = some (Module.parse text) := by
  rcases h.placed.offset with ⟨rest, hrest⟩
  have hresume := h.resume_eq
  rcases s with ⟨pos, p⟩
  rw [resume_of_behind? hrest] at hresume
  cases p with
  | done fs =>
      have hread : readDrafts text = .ok fs := by
        rw [readDrafts, ← hresume]
        rfl
      rw [Module.parse_eq_ok.mpr ⟨fs, hread, rfl⟩]
      rfl
  | failed fault =>
      have hread : readDrafts text = .error ⟨lineAt text.toList rest, fault⟩ :=
        readDrafts_eq_error.mpr ⟨rest, hresume.symm, rfl⟩
      rw [Module.parse_eq_error.mpr hread, result?, hrest]
      rfl
  | _ => cases hend

end Cursor

end Tir
end LoopNest

namespace LoopNest
namespace Tir

/-!
## Progress

On every text, well-formed or not, a reading goes on until it ends with a module or a fault.  No
round of a loop comes back to the place where it began.
-/

open Relation

/-!
### Rounds of the loops
-/

/-- The rank in front of every round of a loop. -/
def ReadLoop.rank : ReadLoop -> Nat
  | functions | operands => 2
  | arguments | instructions => 3
  | blocks => 5

namespace Cursor

variable {text : String} {s t u : Cursor} {loop : ReadLoop}

theorem rank_of_loop? (h : s.loop? = some loop) :
    s.base = s.pos ∧ s.point.rank = loop.rank := by
  rcases s with ⟨pos, p⟩
  cases p with
  | seek goal comment =>
      refine ⟨rfl, ?_⟩
      cases goal with
      | function | argument | block | instruction | operand =>
          cases h
          rfl
      | _ => cases h
  | _ => cases h

/-- In front of the next round of a loop, the round has taken characters. -/
theorem pos_lt_of_loop? (hs : s.loop? = some loop) (hsteps : TransGen (Step text) s t)
    (ht : t.loop? = some loop) : s.pos < t.pos := by
  rcases rank_of_loop? hs with ⟨hbase, hrank⟩
  rcases rank_of_loop? ht with ⟨hbase', hrank'⟩
  rcases Cursor.height_lt.mp (height_lt_of_transGen hsteps) with hlt | ⟨_, hlt | ⟨_, hlt⟩⟩
  · rwa [hbase, hbase'] at hlt
  · rw [hrank, hrank'] at hlt
    exact absurd hlt (Nat.lt_irrefl _)
  · exact hlt

/-!
### Every cursor of a reading
-/

theorem Step.unique (ht : Step text s t) (hu : Step text s u) : u = t := by
  cases ht with
  | turn hrest hturn =>
      cases hu with
      | turn hrest' hturn' =>
          cases hrest.symm.trans hrest'
          cases hturn.symm.trans hturn'
          rfl

/-- What holds of every cursor that comes up while `text` is read. -/
structure Sound (text : String) (s : Cursor) : Prop where
  /-- The position is not behind the end of the text and not inside a character. -/
  valid : String.Pos.Raw.IsValid text ⟨s.pos⟩
  /-- There is one way to go on, but for the end. -/
  goes_on : s.Halted ∧ (forall t, ¬ Step text s t) ∨ exists t, forall u, Step text s u <-> u = t
  /-- The position moves back only behind a look-ahead of the loop over instructions, and then to
  the place where this look-ahead began. -/
  back : forall t, Step text s t -> t.pos < s.pos ->
    exists r, Run text r ∧ r.loop? = some .instructions ∧ r.pos = t.pos ∧
      TransGen (LooksAhead text) r s
  /-- An instruction is read only where the block does not end. -/
  enters : forall b comment, s.point = .seek (.result b) comment ->
    exists rest, Text.behind? text.toList s.pos = some rest ∧ endsBlock rest = false
  /-- A round of a loop takes characters, or the loop does not go on behind it. -/
  advances : forall loop t, s.loop? = some loop -> TransGen (Step text) s t ->
    t.loop? = some loop -> s.pos < t.pos
  /-- The readers of functions can take over here, and answer what they answer for the text. -/
  resumes : s.resume text = functions [] text.toList
  /-- The steps that follow lead to the end, with what the text stands for. -/
  ends : exists t, ReflTransGen (Step text) s t ∧ t.Halted ∧
    t.result? text = some (Module.parse text)

theorem Run.sound (h : Run text s) : Sound text s where
  valid := Text.isValid_iff.mpr h.placed.offset
  goes_on := by
    rcases h.placed.goes_on with hend | ⟨t, hstep⟩
    · exact Or.inl ⟨hend, fun t => hend.not_step⟩
    · refine Or.inr ⟨t, fun u => ⟨hstep.unique, ?_⟩⟩
      rintro rfl
      exact hstep
  back := by
    intro t hstep hlt
    rcases h.placed.back hstep hlt with ⟨b, start, _, hpeeks, hpos⟩
    rcases hpeeks.began with ⟨r, comment, hr, hpoint, hstart, hpath⟩
    exact ⟨r, hr, by rw [loop?, hpoint]; rfl, hstart.trans hpos.symm, hpath⟩
  enters := by
    intro b comment hpoint
    rcases h.placed.code b comment hpoint with ⟨_, c, rest, hrest, _, hends⟩
    exact ⟨c :: rest, hrest, hends⟩
  advances := fun loop t hs hsteps ht => pos_lt_of_loop? hs hsteps ht
  resumes := h.resume_eq
  ends := by
    rcases h.exists_halted with ⟨t, hsteps, hend⟩
    exact ⟨t, hsteps, hend, Run.result?_eq (h.trans hsteps) hend⟩

end Cursor

/-!
### Lines of faults
-/

/-- A fault is on the line that the text in front of it ends with. -/
theorem line_of_readDrafts {text : String} {e : ReadError} (h : readDrafts text = .error e) :
    exists front, front <+: text.toList ∧ e.line = 1 + front.count '\n' := by
  rcases readDrafts_eq_error.mp h with ⟨rest, herror, hline⟩
  rcases suffix_of_functions_error herror with ⟨front, htext⟩
  refine ⟨front, ⟨rest, htext⟩, ?_⟩
  rw [hline, lineAt, ← htext, List.count_append, Nat.add_sub_cancel, Nat.add_comm]

/-- Every text is read to the end in finitely many steps, each cursor on the way is sound, and a
fault is reported on a line of the text. -/
theorem Module.parse_progresses (text : String) :
    Acc (fun t s => Cursor.Step text s t) Cursor.start ∧
    (forall s, Cursor.Run text s -> s.Sound text) ∧
    forall e, Module.parse text = .error e ->
      (exists front, front <+: text.toList ∧ e.line = 1 + front.count '\n') ∧
      1 ≤ e.line ∧ e.line ≤ 1 + text.toList.count '\n' := by
  refine ⟨Cursor.Run.acc .refl, fun s hs => hs.sound, fun e he => ?_⟩
  rcases line_of_readDrafts (Module.parse_eq_error.mp he) with ⟨front, hfront, hline⟩
  have hle : front.count '\n' ≤ text.toList.count '\n' := hfront.sublist.count_le '\n'
  exact ⟨⟨front, hfront, hline⟩, by omega, by omega⟩

/-- A text that ends in the arguments of its second function. -/
theorem Module.parse_progresses_openArguments :
    Module.parse "g()!\nf(%x" = .error ⟨2, .openArguments⟩ ∧
      2 ≤ 1 + "g()!\nf(%x".toList.count '\n' ∧
      exists t, Cursor.Run "g()!\nf(%x" t ∧ t.Halted ∧
        t.result? "g()!\nf(%x" = some (.error ⟨2, .openArguments⟩) := by
  have hparse : Module.parse "g()!\nf(%x" = .error ⟨2, .openArguments⟩ := by
    decide +kernel
  rcases Module.parse_progresses "g()!\nf(%x" with ⟨_, hsound, hlines⟩
  rcases (hsound Cursor.start .refl).ends with ⟨t, hrun, hend, hresult⟩
  exact ⟨hparse, (hlines _ hparse).2.2, t, hrun, hend, hparse ▸ hresult⟩

end Tir
end LoopNest
