import LoopNest.Proofs.Tir.Lexemes
import Mathlib.Data.List.Chain

/-!
# Plain texts

A text becomes plain when its comments are deleted and every run of blanks within a line shrinks
to one space.  Line feeds stay, and so do the characters that words are made of.  To drop the
blanks and comments at the front of a text and to make it plain may be done in either order.
-/

namespace LoopNest
namespace Tir

/-- A text without its comments; `comment` says whether the front is inside a comment. -/
def uncommented : (comment : Bool) -> List Char -> List Char
  | _, [] => []
  | comment, c :: cs =>
      if c = '\n' then c :: uncommented false cs
      else if comment || c == ';' then uncommented true cs
      else c :: uncommented false cs

/-- A text with one space for every run of blanks other than line feeds; `behind` says whether
the front is inside such a run. -/
def spaced : (behind : Bool) -> List Char -> List Char
  | _, [] => []
  | behind, c :: cs =>
      if c = '\n' then c :: spaced false cs
      else if Text.isBlank c then
        if behind then spaced true cs else ' ' :: spaced true cs
      else c :: spaced false cs

/-- A text with its comments deleted and its blanks shrunk. -/
def plain (cs : List Char) : List Char :=
  spaced false (uncommented false cs)

def normal (text : String) : String :=
  String.ofList (plain text.toList)

/-- The character is a line feed, or neither a blank nor the start of a comment. -/
def Kept (c : Char) : Prop :=
  c = '\n' ∨ Solid c

/-- The text has no comment, and its only blanks are line feeds and single spaces. -/
structure IsPlain (cs : List Char) : Prop where
  kept : forall c, c ∈ cs -> c = ' ' ∨ Kept c
  single : cs.IsChain fun c d => c = ' ' -> d ≠ ' '

variable {lines comment behind : Bool} {c : Char} {cs front rest : List Char}

theorem Solid.ne_line (hc : Solid c) : c ≠ '\n' := by
  intro heq
  rw [heq] at hc
  exact absurd hc (by decide)

/-- What becomes of the first character of a text. -/
theorem spaced_cons (behind comment : Bool) (c : Char) (cs : List Char) :
    spaced behind (uncommented comment (c :: cs)) =
      if c = '\n' then c :: spaced false (uncommented false cs)
      else if comment || c == ';' then spaced behind (uncommented true cs)
      else if Text.isBlank c then
        if behind then spaced true (uncommented false cs)
        else ' ' :: spaced true (uncommented false cs)
      else c :: spaced false (uncommented false cs) := by
  by_cases hline : c = '\n'
  · subst hline
    rfl
  · by_cases hcomment : (comment || c == ';') = true
    · rw [uncommented, if_neg hline, if_pos hcomment, if_neg hline, if_pos hcomment]
    · rw [uncommented, if_neg hline, if_neg hcomment, spaced, if_neg hline, if_neg hline,
        if_neg hcomment]

theorem plain_cons (hc : Kept c) : plain (c :: cs) = c :: plain cs := by
  rcases hc with rfl | hc
  · rfl
  · have hcomment : (c == ';') = false := beq_eq_false_iff_ne.mpr hc.2
    rw [plain, spaced_cons, if_neg hc.ne_line, Bool.false_or, hcomment, if_neg Bool.false_ne_true,
      hc.1, if_neg Bool.false_ne_true, plain]

theorem plain_append (hcs : forall c, c ∈ cs -> Kept c) (rest : List Char) :
    plain (cs ++ rest) = cs ++ plain rest := by
  induction cs with
  | nil => rfl
  | cons c cs ih =>
      have hrest := ih fun d hd => hcs d (List.mem_cons_of_mem c hd)
      rw [List.cons_append, plain_cons (hcs c List.mem_cons_self), hrest, List.cons_append]

/-!
## What plain texts look like
-/

theorem kept_of_mem_spaced (h : c ∈ spaced behind (uncommented comment cs)) :
    c = ' ' ∨ Kept c := by
  induction cs generalizing comment behind with
  | nil => cases h
  | cons d cs ih =>
      rw [spaced_cons] at h
      split at h
      · rename_i hline
        rcases List.mem_cons.mp h with heq | hmem
        · exact Or.inr (Or.inl (heq.trans hline))
        · exact ih hmem
      · split at h
        · exact ih h
        · rename_i hcomment
          split at h
          · split at h
            · exact ih h
            · rcases List.mem_cons.mp h with heq | hmem
              · exact Or.inl heq
              · exact ih hmem
          · rename_i hblank
            rcases List.mem_cons.mp h with heq | hmem
            · subst heq
              rw [Bool.or_eq_true, not_or] at hcomment
              exact Or.inr (Or.inr ⟨by simpa using hblank, by simpa using hcomment.2⟩)
            · exact ih hmem

/-- Behind a space there is no other one, as the run that it stands for goes on. -/
theorem single_spaced {first : Char} (hfirst : first = ' ' -> behind = true) :
    (first :: spaced behind (uncommented comment cs)).IsChain fun c d => c = ' ' -> d ≠ ' ' := by
  induction cs generalizing comment behind first with
  | nil => exact List.IsChain.singleton _
  | cons c cs ih =>
      rw [spaced_cons]
      split
      · rename_i hline
        subst hline
        exact List.IsChain.cons_cons (fun _ => by decide) (ih fun h => absurd h (by decide))
      · split
        · exact ih hfirst
        · split
          · cases behind with
            | true => exact ih fun _ => rfl
            | false =>
                refine List.IsChain.cons_cons (fun h => ?_) (ih fun _ => rfl)
                cases hfirst h
          · rename_i hblank
            have hc : c ≠ ' ' := by
              intro heq
              rw [heq] at hblank
              exact hblank (by decide)
            exact List.IsChain.cons_cons (fun _ => hc) (ih fun h => absurd h hc)

theorem isPlain_plain (cs : List Char) : IsPlain (plain cs) where
  kept := fun _ hc => kept_of_mem_spaced hc
  single := by
    have hline : '\n' = ' ' -> false = true := fun h => absurd h (by decide)
    exact (single_spaced hline).tail

/-!
## Blanks and comments at the front
-/

/-- A reader that drops blanks and comments stops at a character that plain texts keep. -/
theorem kept_of_skipFrom (h : skipFrom lines comment cs = c :: rest) : Kept c := by
  induction cs generalizing comment with
  | nil => cases h
  | cons d cs ih =>
      rw [skipFrom] at h
      split at h
      · rename_i hline
        cases lines with
        | true => exact ih h
        | false =>
            cases h
            exact Or.inl hline
      · split at h
        · exact ih h
        · rename_i hblank
          split at h
          · exact ih h
          · rename_i hcomment
            cases h
            rw [Bool.or_eq_true, not_or] at hblank
            exact Or.inr ⟨Bool.not_eq_true _ ▸ hblank.2, hcomment⟩

theorem skipFrom_spaced (lines comment behind : Bool) (cs : List Char) :
    skipFrom lines false (spaced behind (uncommented comment cs)) =
      plain (skipFrom lines comment cs) := by
  induction cs generalizing comment behind with
  | nil => rfl
  | cons c cs ih =>
      rw [spaced_cons]
      by_cases hline : c = '\n'
      · subst hline
        cases lines with
        | true => exact ih false false
        | false => rfl
      · rw [if_neg hline, skipFrom, if_neg hline]
        cases comment with
        | true =>
            rw [Bool.true_or, Bool.true_or, if_pos rfl, if_pos rfl]
            exact ih true behind
        | false =>
            by_cases hcomment : c = ';'
            · subst hcomment
              exact ih true behind
            · rw [Bool.false_or, Bool.false_or, beq_eq_false_iff_ne.mpr hcomment,
                if_neg Bool.false_ne_true, if_neg hcomment]
              cases hblank : Text.isBlank c with
              | true =>
                  rw [if_pos rfl, if_pos rfl]
                  cases behind with
                  | true => exact ih false true
                  | false => exact ih false true
              | false =>
                  have hc : Solid c := ⟨hblank, hcomment⟩
                  rw [if_neg Bool.false_ne_true, if_neg Bool.false_ne_true, plain_cons (Or.inr hc)]
                  exact skipFrom_solid hc

theorem skip_plain (cs : List Char) : skip (plain cs) = plain (skip cs) :=
  skipFrom_spaced true false false cs

theorem skipInline_plain (cs : List Char) : skipInline (plain cs) = plain (skipInline cs) :=
  skipFrom_spaced false false false cs

theorem skip_plain_cons (h : skip cs = c :: rest) : skip (plain cs) = c :: plain rest := by
  rw [skip_plain, h, plain_cons (kept_of_skipFrom h)]

theorem skipInline_plain_cons (h : skipInline cs = c :: rest) :
    skipInline (plain cs) = c :: plain rest := by
  rw [skipInline_plain, h, plain_cons (kept_of_skipFrom h)]

/-!
## Fronts, words and lines
-/

/-- Behind a comment there is a line feed or nothing. -/
theorem head?_comment (h : (spaced behind (uncommented true cs)).head? = some c) : c = '\n' := by
  induction cs with
  | nil => cases h
  | cons d cs ih =>
      rw [spaced_cons, Bool.true_or, if_pos rfl] at h
      split at h
      · rename_i hline
        exact (Option.some.inj h).symm.trans hline
      · exact ih h

/-- Words and marks at the front of a plain text are at the front of the text itself. -/
theorem head?_plain (hc : Solid c) : (plain cs).head? = some c <-> cs.head? = some c := by
  cases cs with
  | nil => rfl
  | cons d cs =>
      by_cases hd : Kept d
      · rw [plain_cons hd, List.head?_cons, List.head?_cons]
      · have hblank : (plain (d :: cs)).head? ≠ some c := by
          intro h
          rw [plain, spaced_cons] at h
          split at h
          · rename_i hline
            exact hd (Or.inl hline)
          · split at h
            · exact hc.ne_line (head?_comment h)
            · split at h
              · cases Option.some.inj h
                exact absurd hc (by decide)
              · rename_i hcomment hsolid
                exact hd (Or.inr ⟨by simpa using hsolid, by simpa using hcomment⟩)
        constructor
        · intro h
          exact absurd h hblank
        · intro h
          cases Option.some.inj h
          exact absurd (Or.inr hc) hd

theorem head?_plain_ne (hc : Solid c) : (plain cs).head? ≠ some c <-> cs.head? ≠ some c :=
  not_congr (head?_plain hc)

theorem exists_of_skip_plain (hc : Solid c) (h : skip (plain cs) = c :: rest) :
    exists front, skip cs = c :: front := by
  rw [skip_plain] at h
  apply List.head?_eq_some_iff.mp
  rw [← head?_plain hc, h, List.head?_cons]

theorem span_plain {p : Char -> Bool} (hsolid : forall c, p c = true -> Solid c)
    (cs : List Char) :
    (plain cs).takeWhile p = cs.takeWhile p ∧ (plain cs).dropWhile p = plain (cs.dropWhile p) := by
  have hsplit := List.takeWhile_append_dropWhile (p := p) (l := cs)
  have hfront : forall c, c ∈ cs.takeWhile p -> p c = true := fun c hc =>
    List.mem_takeWhile_imp hc
  have hstop : forall c, (plain (cs.dropWhile p)).head? = some c -> p c = false := by
    intro c hc
    rw [← Bool.not_eq_true]
    intro hpc
    have hnot := List.head?_dropWhile_not p cs
    rw [(head?_plain (hsolid c hpc)).mp hc] at hnot
    simp [hpc] at hnot
  have hplain : plain cs = cs.takeWhile p ++ plain (cs.dropWhile p) := by
    conv => lhs; rw [← hsplit]
    exact plain_append (fun c hc => Or.inr (hsolid c (hfront c hc))) _
  rw [hplain]
  exact span_append hfront hstop

theorem count_spaced (comment behind : Bool) (cs : List Char) :
    (spaced behind (uncommented comment cs)).count '\n' = cs.count '\n' := by
  induction cs generalizing comment behind with
  | nil => rfl
  | cons c cs ih =>
      rw [spaced_cons]
      by_cases hline : c = '\n'
      · rw [if_pos hline, List.count_cons, List.count_cons, ih]
      · rw [if_neg hline, List.count_cons_of_ne hline]
        split
        · exact ih true behind
        · split
          · split
            · exact ih false true
            · rw [List.count_cons_of_ne (by decide)]
              exact ih false true
          · rw [List.count_cons_of_ne hline]
            exact ih false false

theorem lineAt_plain (cs rest : List Char) : lineAt (plain cs) (plain rest) = lineAt cs rest := by
  unfold lineAt plain
  rw [count_spaced, count_spaced]

end Tir
end LoopNest
