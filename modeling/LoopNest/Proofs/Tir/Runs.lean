import LoopNest.Proofs.Tir.Layout
import LoopNest.Proofs.Tir.Turns

/-!
# Runs

Every step leads upwards in the order of cursors, and every cursor that comes up stands at an offset
into the text.  So a run can neither go on for ever nor get stuck.
-/

namespace LoopNest
namespace Tir
namespace Cursor

open Relation

variable {text : String} {s t : Cursor} {found : Option Char} {turn : Turn} {b : OpenBlock}
  {start : Nat} {rest : List Char}

/-!
## The order of cursors
-/

/-- A cursor gets higher when the position that counts moves on, then with its rank, then with its
position. -/
def height (s : Cursor) : Nat ×ₗ Nat ×ₗ Nat :=
  toLex (s.base, toLex (s.point.rank, s.pos))

theorem height_lt :
    s.height < t.height <->
      s.base < t.base ∨ s.base = t.base ∧
        (s.point.rank < t.point.rank ∨ s.point.rank = t.point.rank ∧ s.pos < t.pos) := by
  simp [height, Prod.Lex.toLex_lt_toLex]

theorem base_of_start? (h : s.point.start? = none) : s.base = s.pos := by
  rw [base, h, Option.getD_none]

theorem Turns.height_lt (h : s.Turns found turn) : s.height < (s.after found turn).height := by
  rw [Cursor.height_lt]
  cases h with
  | stay hstart hp =>
      rename_i p
      have hbase : (s.after found (.stay p)).base = s.pos := base_of_start? hp.1.start?
      exact Or.inr ⟨(base_of_start? hstart).trans hbase.symm, Or.inl hp.2⟩
  | take hstart hp =>
      rw [base_of_start? hstart, base_of_start? hp.start?]
      exact Or.inl (Nat.lt_add_of_pos_right (Char.utf8Size_pos _))
  | pass hs _ =>
      rw [base_of_start? (by rw [hs]; rfl)]
      exact Or.inl (Nat.lt_add_of_pos_right (Char.utf8Size_pos _))
  | enter hs _ _ _ =>
      refine Or.inr ⟨base_of_start? (by rw [hs]; rfl), Or.inl ?_⟩
      rw [hs]
      exact of_decide_eq_true rfl
  | look hs _ =>
      refine Or.inr ⟨base_of_start? (by rw [hs]; rfl), Or.inl ?_⟩
      rw [hs]
      exact of_decide_eq_true rfl
  | further hs _ =>
      refine Or.inr ⟨by rw [base, hs]; rfl, Or.inr ⟨by rw [hs]; rfl, ?_⟩⟩
      exact Nat.lt_add_of_pos_right (Char.utf8Size_pos _)
  | label hs =>
      refine Or.inr ⟨by rw [base, hs]; rfl, Or.inl ?_⟩
      rw [hs]
      exact of_decide_eq_true rfl
  | code hs _ _ =>
      refine Or.inr ⟨by rw [base, hs]; rfl, Or.inl ?_⟩
      rw [hs]
      exact of_decide_eq_true rfl

theorem Step.height_lt (h : Step text s t) : s.height < t.height := by
  cases h with
  | turn _ hturn => exact (turns_of_turn? hturn).height_lt

theorem height_lt_of_transGen (h : TransGen (Step text) s t) : s.height < t.height := by
  induction h with
  | single hstep => exact hstep.height_lt
  | tail _ hstep ih => exact ih.trans hstep.height_lt

/-!
## What holds along a run
-/

/-- The look-ahead that `s` is in began at `start`, in front of an instruction of `b`, and has read
a part of an identifier since then. -/
structure Peeks (text : String) (s : Cursor) (b : OpenBlock) (start : Nat) : Prop where
  began : exists r comment, Run text r ∧ r.point = .seek (.instruction b) comment ∧
    r.pos = start ∧ TransGen (LooksAhead text) r s
  reads : exists c front rest, Text.behind? text.toList start = some (c :: (front ++ rest)) ∧
    Text.behind? text.toList s.pos = some rest ∧ opensIdentifier c = true ∧
    forall d, d ∈ front -> continuesIdentifier d = true

/-- The cursor is at an offset.  A look-ahead is what it should be, and in front of an instruction
there is a character that does not end the block. -/
structure Placed (text : String) (s : Cursor) : Prop where
  offset : exists rest, Text.behind? text.toList s.pos = some rest
  peeks : forall b start, s.point = .ahead b start -> Peeks text s b start
  code : forall b comment, s.point = .seek (.result b) comment -> comment = false ∧
    exists c rest, Text.behind? text.toList s.pos = some (c :: rest) ∧ Solid c ∧
      endsBlock (c :: rest) = false

theorem placed_of_plain {pos : Nat} {p : Point} (hp : p.Plain)
    (hrest : Text.behind? text.toList pos = some rest) : Placed text ⟨pos, p⟩ where
  offset := ⟨rest, hrest⟩
  peeks := by
    rintro b start rfl
    cases hp
  code := by
    rintro b comment rfl
    cases hp

theorem placed_code {c : Char} {pos : Nat}
    (hrest : Text.behind? text.toList pos = some (c :: rest)) (hc : Solid c)
    (hends : endsBlock (c :: rest) = false) : Placed text ⟨pos, (Goal.result b).point⟩ where
  offset := ⟨c :: rest, hrest⟩
  peeks := by
    intro b start hp
    cases hp
  code := by
    intro b comment hp
    cases hp
    exact ⟨rfl, c, rest, hrest, hc, hends⟩

theorem placed_start (text : String) : Placed text Cursor.start :=
  placed_of_plain trivial (Text.behind?_byteCount [] text.toList)

/-- When its identifier ends, the look-ahead knows whether the block ends where it began. -/
theorem Peeks.verdict (h : Peeks text s b start)
    (hrest : Text.behind? text.toList s.pos = some rest)
    (hend : forall c, rest.head? = some c -> continuesIdentifier c = false) :
    exists c cs, Text.behind? text.toList start = some (c :: cs) ∧ opensIdentifier c = true ∧
      endsBlock (c :: cs) = (rest.head? == some ':') := by
  rcases h.reads with ⟨c, front, rest', hstart, hrest', hopens, hfront⟩
  cases hrest.symm.trans hrest'
  exact ⟨c, front ++ rest, hstart, hopens,
    endsBlock_of_identifier (identifier_eq_ok.mpr (NameText.name hopens hfront hend))⟩

theorem endsBlock_of_percent_or_refused {c : Char} (hbrace : c ≠ '}')
    (hc : c = '%' ∨ opensIdentifier c = false) (rest : List Char) :
    endsBlock (c :: rest) = false := by
  rw [endsBlock, if_neg hbrace]
  rcases hc with hpercent | hrefused
  · rw [if_pos hpercent]
  · split
    · rfl
    · rw [identifier, if_neg (by simp [hrefused])]

theorem placed_ahead {pos : Nat} (h : Peeks text ⟨pos, .ahead b start⟩ b start) :
    Placed text ⟨pos, .ahead b start⟩ where
  offset := by
    rcases h.reads with ⟨_, _, rest, _, hrest, _⟩
    exact ⟨rest, hrest⟩
  peeks := by
    intro b' start' hp
    cases hp
    exact h
  code := by
    intro b comment hp
    cases hp

/-- A look-ahead begins with the first character of an identifier. -/
theorem Peeks.look {c : Char} {comment : Bool} (hrun : Run text s)
    (hs : s.point = .seek (.instruction b) comment)
    (hrest : Text.behind? text.toList s.pos = some (c :: rest)) (hopens : opensIdentifier c = true)
    (hstep : Step text s ⟨s.pos + c.utf8Size, .ahead b s.pos⟩) :
    Peeks text ⟨s.pos + c.utf8Size, .ahead b s.pos⟩ b s.pos where
  began := ⟨s, comment, hrun, hs, rfl, .single ⟨hstep, b, s.pos, rfl⟩⟩
  reads := ⟨c, [], rest, hrest, Text.behind?_next hrest, hopens, fun d hd => by cases hd⟩

theorem Peeks.further {c : Char} (h : Peeks text s b start)
    (hrest : Text.behind? text.toList s.pos = some (c :: rest))
    (hcontinues : continuesIdentifier c = true)
    (hstep : Step text s ⟨s.pos + c.utf8Size, .ahead b start⟩) :
    Peeks text ⟨s.pos + c.utf8Size, .ahead b start⟩ b start where
  began := by
    rcases h.began with ⟨r, comment, hr, hpoint, hpos, hpath⟩
    exact ⟨r, comment, hr, hpoint, hpos, hpath.tail ⟨hstep, b, start, rfl⟩⟩
  reads := by
    rcases h.reads with ⟨d, front, rest', hstart, hrest', hopens, hfront⟩
    cases hrest.symm.trans hrest'
    refine ⟨d, front ++ [c], rest, ?_, Text.behind?_next hrest, hopens, ?_⟩
    · rw [hstart, List.append_assoc, List.singleton_append]
    · rw [List.forall_mem_append, List.forall_mem_singleton]
      exact ⟨hfront, hcontinues⟩

theorem Placed.step (h : Placed text s) (hrun : Run text s) (hstep : Step text s t) :
    Placed text t := by
  have hstep' := hstep
  cases hstep with
  | turn hrest hturn =>
      rename_i rest turn
      have hturns := turns_of_turn? hturn
      generalize hfound : rest.head? = found at hturns hstep' ⊢
      cases hturns with
      | stay _ hp => exact placed_of_plain hp.1 hrest
      | take _ hp =>
          rcases List.head?_eq_some_iff.mp hfound with ⟨more, rfl⟩
          exact placed_of_plain hp (Text.behind?_next hrest)
      | pass hs hc =>
          rcases h.code _ _ hs with ⟨hcomment, c, more, hmore, hsolid, _⟩
          cases hrest.symm.trans hmore
          cases hfound
          exact absurd hsolid (hc hcomment)
      | enter hs hsolid hbrace hc =>
          rcases List.head?_eq_some_iff.mp hfound with ⟨more, rfl⟩
          exact placed_code hrest hsolid (endsBlock_of_percent_or_refused hbrace hc more)
      | look hs hopens =>
          rcases List.head?_eq_some_iff.mp hfound with ⟨more, rfl⟩
          exact placed_ahead (Peeks.look hrun hs hrest hopens hstep')
      | further hs hcontinues =>
          rcases List.head?_eq_some_iff.mp hfound with ⟨more, rfl⟩
          exact placed_ahead ((h.peeks _ _ hs).further hrest hcontinues hstep')
      | label hs =>
          rcases (h.peeks _ _ hs).reads with ⟨c, front, rest', hstart, _⟩
          exact placed_of_plain trivial hstart
      | code hs hend hcolon =>
          subst hfound
          rcases (h.peeks _ _ hs).verdict hrest hend with ⟨c, cs, hstart, hopens, hends⟩
          refine placed_code hstart (solid_of_opens hopens) ?_
          rwa [hends, beq_eq_false_iff_ne]

theorem Run.placed (h : Run text s) : Placed text s := by
  induction h with
  | refl => exact placed_start text
  | tail hrun hstep ih => exact ih.step hrun hstep

/-- The position gets smaller only where a look-ahead goes back to where it began. -/
theorem Placed.back (h : Placed text s) (hstep : Step text s t) (hlt : t.pos < s.pos) :
    exists b start, s.point = .ahead b start ∧ Peeks text s b start ∧ t.pos = start := by
  cases hstep with
  | turn hrest hturn =>
      rename_i rest turn
      have hturns := turns_of_turn? hturn
      generalize rest.head? = found at hturns hlt ⊢
      cases hturns with
      | stay | enter => exact absurd hlt (Nat.lt_irrefl _)
      | take | pass | look | further => exact absurd hlt (Nat.not_lt.mpr (Nat.le_add_right _ _))
      | label hs | code hs => exact ⟨_, _, hs, h.peeks _ _ hs, rfl⟩

/-!
## The end of a run
-/

theorem exists_turn (h : ¬ s.Halted) (found : Option Char) : exists t, s.turn? found = some t := by
  rcases s with ⟨pos, p⟩
  cases p with
  | done | failed => exact absurd trivial h
  | _ =>
      simp only [turn?]
      repeat' split
      all_goals exact ⟨_, rfl⟩

theorem Halted.not_step (h : s.Halted) : ¬ Step text s t := by
  intro hstep
  rcases s with ⟨pos, p⟩
  cases hstep with
  | turn _ hturn =>
      cases p with
      | done | failed => cases hturn
      | _ => cases h

/-- A cursor at an offset goes on until its reading is at its end. -/
theorem Placed.goes_on (h : Placed text s) : s.Halted ∨ exists t, Step text s t := by
  by_cases hend : s.Halted
  · exact Or.inl hend
  · rcases h.offset with ⟨rest, hrest⟩
    rcases exists_turn hend rest.head? with ⟨t, ht⟩
    exact Or.inr ⟨_, Step.turn hrest ht⟩

theorem rank_le (p : Point) : p.rank ≤ 7 := by
  cases p with
  | seek goal _ =>
      cases goal with
      | _ => exact of_decide_eq_true rfl
  | _ => exact of_decide_eq_true rfl

theorem Placed.base_le (h : Placed text s) : s.base ≤ Text.byteCount text.toList := by
  rcases h.offset with ⟨rest, hrest⟩
  rcases s with ⟨pos, p⟩
  cases p with
  | ahead b start =>
      rcases (h.peeks b start rfl).reads with ⟨_, _, _, hstart, _⟩
      exact Text.le_of_behind? hstart
  | _ => exact Text.le_of_behind? hrest

/-- How far the cursor is below the highest ones. -/
def left (text : String) (s : Cursor) : Nat ×ₗ Nat ×ₗ Nat :=
  let size := Text.byteCount text.toList
  toLex (size - s.base, toLex (7 - s.point.rank, size - s.pos))

theorem left_lt (ht : Placed text t) (h : s.height < t.height) : t.left text < s.left text := by
  rcases ht.offset with ⟨rest, hrest⟩
  have hpos := Text.le_of_behind? hrest
  have hbase := ht.base_le
  have hrank := rank_le t.point
  rw [Cursor.height_lt] at h
  simp only [left, Prod.Lex.toLex_lt_toLex]
  lia

/-- From every cursor of a run only finitely many steps follow. -/
theorem Run.acc (h : Run text s) : Acc (fun t s => Step text s t) s := by
  have hleft : WellFounded fun t s : Cursor => t.left text < s.left text :=
    InvImage.wf (left text) wellFounded_lt
  induction s using hleft.induction with
  | _ s ih =>
      apply Acc.intro
      intro t hstep
      have ht : Run text t := h.tail hstep
      exact ih t (left_lt ht.placed hstep.height_lt) ht

theorem Run.exists_halted (h : Run text s) :
    exists t, ReflTransGen (Step text) s t ∧ t.Halted := by
  induction h.acc with
  | intro s _ ih =>
      rcases h.placed.goes_on with hend | ⟨t, hstep⟩
      · exact ⟨s, .refl, hend⟩
      · rcases ih t hstep (h.tail hstep) with ⟨u, hrun, hend⟩
        exact ⟨u, hrun.head hstep, hend⟩

end Cursor
end Tir
end LoopNest
