import LoopNest.Proofs.Tir.Cursors
import LoopNest.Proofs.Tir.Lexemes
import Mathlib.Data.Prod.Lex
import Mathlib.Order.WellFounded

/-!
# Turns

Between two characters that are taken, a cursor passes points of higher and higher rank.  So a
reading cannot go round without taking a character, also where it looks ahead: there the position
that counts is the one where the look-ahead began.
-/

namespace LoopNest
namespace Tir

/-!
## Ranks
-/

def Goal.rank : Goal -> Nat
  | function _ | separator _ | operand _ => 2
  | argument _ | instruction _ => 3
  | ending _ | block _ | result _ => 5
  | opened _ _ | definition _ | body _ | equals _ _ | word _ => 6

def Point.rank : Point -> Nat
  | seek goal _ => goal.rank
  | opening _ => 6
  | further _ _ => 0
  | named _ _ | colon _ _ => 1
  | ahead _ _ => 4
  | done _ | failed _ => 7

/-- The point is neither in a look-ahead nor in front of an instruction. -/
def Point.Plain : Point -> Prop
  | ahead _ _ => False
  | seek (.result _) _ => False
  | _ => True

/-- The start of the look-ahead that the point is in. -/
def Point.start? : Point -> Option Nat
  | ahead _ start => some start
  | _ => none

theorem Point.Plain.start? {p : Point} (h : p.Plain) : p.start? = none := by
  cases p with
  | ahead => cases h
  | _ => rfl

/-- The position, or the one that the look-ahead goes back to. -/
def Cursor.base (s : Cursor) : Nat :=
  s.point.start?.getD s.pos

/-- The point is plain and of a higher rank. -/
def Point.Above (rank : Nat) (p : Point) : Prop :=
  p.Plain ∧ rank < p.rank

theorem Point.above {rank : Nat} {p : Point} (hplain : p.Plain)
    (hrank : decide (rank < p.rank) = true) : p.Above rank :=
  ⟨hplain, of_decide_eq_true hrank⟩

/-!
## Points that a turn leads to
-/

theorem OpenFunction.plain_close (f : OpenFunction) (body : Option (List BlockDraft)) :
    (f.close body).Plain := by
  simp only [OpenFunction.close]
  repeat' split
  all_goals trivial

theorem OpenBody.plain_close (b : OpenBody) : b.close.Plain := by
  unfold OpenBody.close
  split
  · trivial
  · exact b.toOpenFunction.plain_close _

theorem OpenBody.plain_labelled (b : OpenBody) (label : String) : (b.labelled label).Plain := by
  unfold OpenBody.labelled
  split
  all_goals trivial

theorem OpenInstruction.above_close (i : OpenInstruction) : i.close.Above 2 := by
  unfold OpenInstruction.close
  repeat' split
  all_goals exact Point.above trivial rfl

theorem Owner.above_defines (owner : Owner) (v : Variable) : (owner.defines v).Above 1 := by
  cases owner with
  | argument f =>
      rw [Owner.defines]
      split
      all_goals exact Point.above trivial rfl
  | result b => exact Point.above trivial rfl

theorem Role.above_names (role : Role) (name : String) : (role.names name).Above 0 := by
  cases role with
  | function fs =>
      rw [Role.names]
      split
      all_goals exact Point.above trivial rfl
  | type owner valueName =>
      rw [Role.names]
      split
      · exact Point.above trivial rfl
      · rename_i type _
        have habove := owner.above_defines ⟨valueName, type⟩
        exact ⟨habove.1, Nat.zero_lt_of_lt habove.2⟩
  | value | label | opcode | operand | target => exact Point.above trivial rfl

/-!
## Everything a turn can do
-/

namespace Cursor

/-- A turn stays at a higher rank or takes a character.  A look-ahead begins in front of an
instruction, takes the characters of an identifier, and goes back to where it began. -/
inductive Turns (s : Cursor) : Option Char -> Turn -> Prop where
  | stay {found : Option Char} {p : Point} :
      s.point.start? = none -> p.Above s.point.rank -> Turns s found (.stay p)
  | take {c : Char} {p : Point} :
      s.point.start? = none -> p.Plain -> Turns s (some c) (.take p)
  | pass {c : Char} {b : OpenBlock} {comment comment' : Bool} :
      s.point = .seek (.result b) comment -> (comment = false -> ¬ Solid c) ->
      Turns s (some c) (.take (.seek (.result b) comment'))
  | enter {c : Char} {b : OpenBlock} {comment : Bool} :
      s.point = .seek (.instruction b) comment -> Solid c -> c ≠ '}' ->
      c = '%' ∨ opensIdentifier c = false ->
      Turns s (some c) (.stay (Goal.result b).point)
  | look {c : Char} {b : OpenBlock} {comment : Bool} :
      s.point = .seek (.instruction b) comment -> opensIdentifier c = true ->
      Turns s (some c) (.take (.ahead b s.pos))
  | further {c : Char} {b : OpenBlock} {start : Nat} :
      s.point = .ahead b start -> continuesIdentifier c = true ->
      Turns s (some c) (.take (.ahead b start))
  | label {b : OpenBlock} {start : Nat} :
      s.point = .ahead b start -> Turns s (some ':') (.back start b.close)
  | code {found : Option Char} {b : OpenBlock} {start : Nat} :
      s.point = .ahead b start -> (forall c, found = some c -> continuesIdentifier c = false) ->
      found ≠ some ':' -> Turns s found (.back start (Goal.result b).point)

variable {pos start : Nat} {found : Option Char} {goal : Goal} {comment : Bool}

theorem turns_mark {s : Cursor} {wanted : Char} {p : Point} (hstart : s.point.start? = none)
    (hrank : decide (s.point.rank < 7) = true) (hp : p.Plain) :
    s.Turns found (.mark wanted found p) := by
  unfold Turn.mark
  split
  · rename_i hfound
    subst hfound
    exact Turns.take hstart hp
  · exact Turns.stay hstart (Point.above trivial hrank)

theorem turns_role {s : Cursor} (role : Role) (hstart : s.point.start? = none)
    (hrank : decide (s.point.rank < 7) = true) : s.Turns found (role.turn found) := by
  unfold Role.turn
  split
  · exact Turns.stay hstart (Point.above trivial hrank)
  · split
    · exact Turns.take hstart trivial
    · exact Turns.stay hstart (Point.above trivial hrank)

/-- A choice between one character and all others. -/
theorem turns_if {s : Cursor} {wanted : Char} {p q : Point} (hstart : s.point.start? = none)
    (hp : p.Plain) (hq : q.Above s.point.rank) :
    s.Turns found (if found = some wanted then .take p else .stay q) := by
  split
  · rename_i hfound
    subst hfound
    exact Turns.take hstart hp
  · exact Turns.stay hstart hq

theorem turns_goal (hsolid : goal.lines = true -> forall c, found = some c -> Solid c) :
    (Cursor.mk pos (.seek goal comment)).Turns found (goal.turn pos found) := by
  cases goal with
  | function fs =>
      cases found with
      | none | some => exact Turns.stay rfl (Point.above trivial rfl)
  | opened | body | definition | equals => exact turns_mark rfl rfl trivial
  | word role => exact turns_role role rfl rfl
  | argument f => exact turns_if rfl trivial (Point.above trivial rfl)
  | separator f =>
      rw [Goal.turn]
      split
      · rename_i hfound
        subst hfound
        exact Turns.take rfl trivial
      · split
        all_goals exact Turns.stay rfl (Point.above trivial rfl)
  | ending f => exact turns_if rfl (f.plain_close none) (Point.above trivial rfl)
  | block b =>
      rw [Goal.turn]
      split
      · rename_i hfound
        subst hfound
        exact Turns.take rfl b.plain_close
      · split
        all_goals exact Turns.stay rfl (Point.above trivial rfl)
  | instruction b =>
      cases found with
      | none => exact Turns.stay rfl (Point.above trivial rfl)
      | some c =>
          have hc : Solid c := hsolid rfl c rfl
          rw [Goal.turn]
          split
          · exact Turns.stay rfl (Point.above trivial rfl)
          · rename_i hbrace
            split
            · rename_i hpercent
              exact Turns.enter rfl hc hbrace (Or.inl hpercent)
            · split
              · rename_i hopens
                exact Turns.look rfl hopens
              · rename_i hopens
                exact Turns.enter rfl hc hbrace (Or.inr (eq_false_of_ne_true hopens))
  | result b =>
      rw [Goal.turn]
      split
      all_goals exact Turns.stay rfl (Point.above trivial rfl)
  | operand i =>
      cases found with
      | none => exact Turns.stay rfl i.above_close
      | some c =>
          rw [Goal.turn]
          repeat' split
          all_goals first
            | exact Turns.take rfl trivial
            | exact Turns.stay rfl i.above_close
            | exact Turns.stay rfl (Point.above trivial rfl)

theorem turns_blank {c : Char} {comment' : Bool} (hc : comment = false -> ¬ Solid c) :
    (Cursor.mk pos (.seek goal comment)).Turns (some c) (.take (.seek goal comment')) := by
  cases goal with
  | result b => exact Turns.pass rfl hc
  | _ => exact Turns.take rfl trivial

theorem turns_seek :
    (Cursor.mk pos (.seek goal comment)).Turns found (goal.seek comment pos found) := by
  cases found with
  | none => exact turns_goal fun _ c hc => nomatch hc
  | some c =>
      rw [Goal.seek]
      split
      · rename_i hline
        subst hline
        split
        · exact turns_blank fun _ hsolid => absurd hsolid (by decide)
        · rename_i hlines
          exact turns_goal fun hline => absurd hline hlines
      · split
        · rename_i hblank
          refine turns_blank fun hcomment hsolid => ?_
          rw [hcomment, Bool.false_or, hsolid.1] at hblank
          cases hblank
        · rename_i hblank
          split
          · rename_i hsemicolon
            exact turns_blank fun _ hsolid => absurd hsemicolon hsolid.2
          · rename_i hsemicolon
            refine turns_goal fun _ d hd => ?_
            cases hd
            rw [Bool.not_eq_true, Bool.or_eq_false_iff] at hblank
            exact ⟨hblank.2, hsemicolon⟩

/-- The turn of a cursor is one of these. -/
theorem turns_of_turn? {s : Cursor} {t : Turn} (h : s.turn? found = some t) : s.Turns found t := by
  rcases s with ⟨pos, p⟩
  cases p with
  | seek goal comment =>
      cases h
      exact turns_seek
  | opening role =>
      cases h
      exact turns_role role rfl rfl
  | further role front =>
      simp only [turn?] at h
      split at h
      · rename_i hfound
        cases h
        rcases Option.filter_eq_some_iff.mp hfound with ⟨rfl, _⟩
        exact Turns.take rfl trivial
      · cases h
        exact Turns.stay rfl (role.above_names _)
  | named owner value =>
      simp only [turn?, ← apply_ite some] at h
      cases h
      exact turns_if rfl trivial (owner.above_defines _)
  | colon b label =>
      simp only [turn?, ← apply_ite some] at h
      cases h
      exact turns_if rfl (b.plain_labelled label) (Point.above trivial rfl)
  | ahead b start =>
      simp only [turn?] at h
      split at h
      · rename_i hfound
        cases h
        rcases Option.filter_eq_some_iff.mp hfound with ⟨rfl, hcontinues⟩
        exact Turns.further rfl hcontinues
      · rename_i hfound
        split at h
        · rename_i hcolon
          cases h
          subst hcolon
          exact Turns.label rfl
        · rename_i hcolon
          cases h
          refine Turns.code rfl (fun c hc => ?_) hcolon
          subst hc
          simpa using hfound
  | done => cases h
  | failed => cases h

end Cursor

end Tir
end LoopNest
