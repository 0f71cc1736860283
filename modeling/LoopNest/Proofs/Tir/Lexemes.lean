import LoopNest.Proofs.Tir.Grammar
import Mathlib.Data.List.TakeWhile

/-!
# Reading words

The readers of blanks, names, marks and definitions agree with the grammar.  The grammar may
stop anywhere in a run of blanks, a reader drops the whole run; so what they agree on is what
is left when the blanks at the front of the rest are dropped too.
-/

namespace LoopNest

/-- Code points inside ranges are among the code points that the ranges list. -/
theorem Text.mem_of_inRanges {ranges : List (Nat × Nat)} {code : Nat}
    (h : Text.inRanges ranges code = true) :
    code ∈ ranges.flatMap fun range => List.range' range.1 (range.2 + 1 - range.1) := by
  induction ranges with
  | nil => simp [inRanges] at h
  | cons range ranges ih =>
      rw [List.flatMap_cons, List.mem_append]
      unfold inRanges at h
      split at h
      · rename_i hhigh
        exact Or.inl (List.mem_range'_1.mpr ⟨of_decide_eq_true h, by omega⟩)
      · exact Or.inr (ih h)

namespace Tir

/-- The character is neither a blank nor the start of a comment. -/
def Solid (c : Char) : Prop :=
  Text.isBlank c = false ∧ c ≠ ';'

instance (c : Char) : Decidable (Solid c) :=
  inferInstanceAs (Decidable (_ ∧ _))

theorem not_continues_of_blank {c : Char} (h : Text.isBlank c = true) :
    continuesIdentifier c = false := by
  have hall : forall code,
      code ∈ Text.blankRanges.flatMap (fun range => List.range' range.1 (range.2 + 1 - range.1)) ->
      continuesIdentifier (Char.ofNat code) = false := by decide +kernel
  have hc := hall _ (Text.mem_of_inRanges h)
  rwa [Char.ofNat_toNat] at hc

theorem solid_of_continues {c : Char} (h : continuesIdentifier c = true) : Solid c := by
  constructor
  · rw [← Bool.not_eq_true]
    intro hblank
    rw [not_continues_of_blank hblank] at h
    cases h
  · rintro rfl
    exact absurd h (by decide)

theorem continues_of_opens {c : Char} (h : opensIdentifier c = true) :
    continuesIdentifier c = true := by
  rcases Bool.or_eq_true_iff.mp h with hletter | hline
  · simp [continuesIdentifier, hletter]
  · simp [continuesIdentifier, hline]

theorem solid_of_opens {c : Char} (h : opensIdentifier c = true) : Solid c :=
  solid_of_continues (continues_of_opens h)

variable {lines : Bool} {c mark : Char} {cs more rest : List Char} {name : String}

/-!
## Blanks and comments
-/

theorem skipFrom_comment (lines : Bool) (cs : List Char) :
    skipFrom lines true cs = skipFrom lines false (cs.dropWhile (· != '\n')) := by
  induction cs with
  | nil => rfl
  | cons c cs ih =>
      by_cases hc : c = '\n'
      · subst hc
        rfl
      · rw [skipFrom, if_neg hc, Bool.true_or, if_pos rfl, ih,
          List.dropWhile_cons_of_pos (p := (· != '\n')) (bne_iff_ne.mpr hc)]

theorem skipFrom_solid (hc : Solid c) : skipFrom lines false (c :: cs) = c :: cs := by
  have hline : c ≠ '\n' := by
    rintro rfl
    exact absurd hc.1 (by decide)
  rw [skipFrom, if_neg hline, hc.1, Bool.or_self, if_neg Bool.false_ne_true, if_neg hc.2]

theorem endsLine_dropWhile (cs : List Char) : EndsLine (cs.dropWhile (· != '\n')) := by
  intro c hc
  have hnot := List.head?_dropWhile_not (· != '\n') cs
  rw [hc] at hnot
  simpa using hnot

/-- What the reader drops is a run of blanks and comments. -/
theorem spaces_skipFrom (lines : Bool) (cs : List Char) :
    Spaces lines cs (skipFrom lines false cs) := by
  induction hlen : cs.length using Nat.strongRecOn generalizing cs with
  | ind k ih =>
      cases cs with
      | nil => exact Spaces.none []
      | cons c cs =>
          have hcs : Spaces lines cs (skipFrom lines false cs) :=
            ih _ (by rw [← hlen, List.length_cons]; omega) cs rfl
          rw [skipFrom]
          split
          · rename_i hline
            subst hline
            cases lines with
            | false => exact Spaces.none _
            | true => exact Spaces.blank (by decide) (fun _ => rfl) hcs
          · rename_i hline
            split
            · rename_i hblank
              exact Spaces.blank hblank (fun heq => absurd heq hline) hcs
            · split
              · rename_i hcomment
                subst hcomment
                have hsplit := List.takeWhile_append_dropWhile (p := (· != '\n')) (l := cs)
                have hlt : (cs.dropWhile (· != '\n')).length < k := by
                  have hle := (List.dropWhile_sublist (l := cs) (· != '\n')).length_le
                  rw [List.length_cons] at hlen
                  omega
                have hfront : '\n' ∉ cs.takeWhile (· != '\n') := by
                  intro hmem
                  exact absurd (List.mem_takeWhile_imp hmem) (by decide)
                rw [skipFrom_comment]
                have hspaces :=
                  Spaces.comment hfront (endsLine_dropWhile cs) (ih _ hlt _ rfl)
                rwa [hsplit] at hspaces
              · exact Spaces.none _

theorem dropWhile_comment {text : List Char} (htext : '\n' ∉ text) (hcs : EndsLine cs) :
    (text ++ cs).dropWhile (· != '\n') = cs := by
  have hall : forall c, c ∈ text -> (c != '\n') = true := by
    intro c hc
    rw [bne_iff_ne]
    rintro rfl
    exact htext hc
  rw [List.dropWhile_append_of_pos hall]
  cases cs with
  | nil => rfl
  | cons c cs => exact List.dropWhile_cons_of_neg (by simp [hcs c rfl])

/-- A run of blanks in front of a text does not change what is left of it. -/
theorem skipFrom_of_spaces (h : Spaces lines cs rest) :
    skipFrom lines false cs = skipFrom lines false rest := by
  induction h with
  | none => rfl
  | blank hblank hline _ ih =>
      rename_i c cs rest _
      rw [skipFrom]
      split
      · rename_i heq
        rw [hline heq, if_pos rfl, ← hline heq]
        exact ih
      · rw [hblank, Bool.or_true, if_pos rfl]
        exact ih
  | comment htext hcs _ ih =>
      rw [skipFrom, if_neg (by decide), if_neg (by decide), if_pos rfl, skipFrom_comment,
        dropWhile_comment htext hcs]
      exact ih

theorem spaces_skip (cs : List Char) : Spaces true cs (skip cs) :=
  spaces_skipFrom true cs

theorem skip_of_spaces (h : Spaces true cs rest) : skip cs = skip rest :=
  skipFrom_of_spaces h

theorem skip_solid (hc : Solid c) : skip (c :: cs) = c :: cs :=
  skipFrom_solid hc

@[simp] theorem skip_skip (cs : List Char) : skip (skip cs) = skip cs :=
  (skip_of_spaces (spaces_skip cs)).symm

/-- A reader that drops blanks stops at the character that the grammar goes on with. -/
theorem skip_eq_cons (hc : Solid c) : skip cs = c :: rest <-> Spaces true cs (c :: rest) := by
  constructor
  · intro h
    rw [← h]
    exact spaces_skip cs
  · intro h
    rw [skip_of_spaces h, skip_solid hc]

/-- Behind a solid character there is no run of blanks to stop at. -/
theorem Spaces.head?_ne (h : Spaces lines cs (c :: rest)) (hmark : Solid mark)
    (hne : c ≠ mark) : cs.head? ≠ some mark := by
  cases h with
  | none =>
      intro heq
      exact hne (Option.some.inj heq)
  | blank hblank _ _ =>
      intro heq
      cases Option.some.inj heq
      rw [hmark.1] at hblank
      cases hblank
  | comment _ _ _ =>
      intro heq
      exact hmark.2 (Option.some.inj heq).symm

/-!
## Names
-/

def IsName (name : String) : Prop :=
  exists c cs, name = String.ofList (c :: cs) ∧ opensIdentifier c = true ∧
    forall d, d ∈ cs -> continuesIdentifier d = true

theorem IsName.ne_empty (h : IsName name) : name ≠ "" := by
  rcases h with ⟨c, cs, rfl, _, _⟩
  simp

theorem NameText.isName (h : NameText cs name rest) : IsName name := by
  cases h with
  | name hopens hcontinues _ => exact ⟨_, _, rfl, hopens, hcontinues⟩

theorem NameText.opens (h : NameText cs name rest) :
    exists c front, cs = c :: front ∧ opensIdentifier c = true := by
  cases h with
  | name hopens _ _ => exact ⟨_, _, rfl, hopens⟩

theorem NameText.skip_eq (h : NameText cs name rest) : skip cs = cs := by
  rcases h.opens with ⟨c, front, rfl, hopens⟩
  exact skip_solid (solid_of_opens hopens)

/-- A run ends where its condition fails. -/
theorem span_append {alpha : Type} {p : alpha -> Bool} {cs rest : List alpha}
    (hcs : forall c, c ∈ cs -> p c = true)
    (hrest : forall c, rest.head? = some c -> p c = false) :
    (cs ++ rest).takeWhile p = cs ∧ (cs ++ rest).dropWhile p = rest := by
  have hstop : rest.takeWhile p = [] ∧ rest.dropWhile p = rest := by
    cases rest with
    | nil => exact ⟨rfl, rfl⟩
    | cons c rest =>
        have hc := hrest c rfl
        exact ⟨List.takeWhile_cons_of_neg (by simp [hc]),
          List.dropWhile_cons_of_neg (by simp [hc])⟩
  rw [List.takeWhile_append_of_pos hcs, List.dropWhile_append_of_pos hcs, hstop.1, hstop.2,
    List.append_nil]
  exact ⟨rfl, rfl⟩

theorem identifier_eq_ok : identifier cs = .ok (name, rest) <-> NameText cs name rest := by
  constructor
  · intro h
    cases cs with
    | nil => cases h
    | cons c cs =>
        rw [identifier] at h
        split at h
        · rename_i hopens
          cases h
          have hsplit := List.takeWhile_append_dropWhile (p := continuesIdentifier) (l := cs)
          have hname : NameText
              (c :: (cs.takeWhile continuesIdentifier ++ cs.dropWhile continuesIdentifier))
              (String.ofList (c :: cs.takeWhile continuesIdentifier))
              (cs.dropWhile continuesIdentifier) := by
            refine NameText.name hopens (fun d hd => List.mem_takeWhile_imp hd) fun d hd => ?_
            have hnot := List.head?_dropWhile_not continuesIdentifier cs
            rw [hd] at hnot
            simpa using hnot
          rwa [hsplit] at hname
        · cases h
  · intro h
    cases h with
    | name hopens hcontinues hrest =>
        rcases span_append hcontinues hrest with ⟨hname, hbehind⟩
        rw [identifier, if_pos hopens, hname, hbehind]

theorem word_eq_ok : word cs = .ok (name, rest) <-> NameText (skip cs) name rest :=
  identifier_eq_ok

/-!
## Marks
-/

theorem expect_eq_ok (hmark : Solid mark) :
    expect mark cs = .ok rest <-> Spaces true cs (mark :: rest) := by
  rw [← skip_eq_cons hmark]
  unfold expect
  cases skip cs with
  | nil => simp
  | cons c front =>
      by_cases hc : c = mark
      · subst hc
        simp
      · simp [hc]

/-!
## Type names
-/

theorem not_digit_of_element {element : String} (h : element ∈ ValueType.elementNames) :
    forall c, element.toList.head? = some c -> c.isDigit = false := by
  have hall : forall name, name ∈ ValueType.elementNames ->
      (name.toList.head?.any Char.isDigit) = false := by
    decide
  intro c hc
  have hc' := hall element h
  rwa [hc, Option.any_some] at hc'

theorem vectorOf?_eq_some {cs : List Char} {type : ValueType} :
    ValueType.vectorOf? cs = some type <-> exists digits element, digits ≠ [] ∧
      (forall d, d ∈ digits -> d.isDigit = true) ∧ 0 < Decimal.ofDigits digits ∧
      Decimal.ofDigits digits < ValueType.laneBound ∧ element ∈ ValueType.elementNames ∧
      cs = digits ++ element.toList ∧ type = .vector (Decimal.ofDigits digits) := by
  simp only [ValueType.vectorOf?, Option.ite_none_right_eq_some, Option.some.injEq]
  constructor
  · rintro ⟨⟨hne, hpos, hlt, helement⟩, rfl⟩
    refine ⟨_, _, hne, fun d hd => List.mem_takeWhile_imp hd, hpos, hlt, helement, ?_, rfl⟩
    rw [String.toList_ofList, List.takeWhile_append_dropWhile]
  · rintro ⟨digits, element, hne, hdigits, hpos, hlt, helement, rfl, rfl⟩
    rcases span_append hdigits (not_digit_of_element helement) with ⟨hfront, hbehind⟩
    rw [hfront, hbehind, String.ofList_toList]
    exact ⟨⟨hne, hpos, hlt, helement⟩, rfl⟩

/-- A word that opens with the letter `v` and a digit can only name a vector. -/
theorem ofAnnotation?_of_digit {name : String} {d : Char}
    (hname : name.toList = 'v' :: d :: rest) (hd : d.isDigit = true) :
    ValueType.ofAnnotation? name = ValueType.vectorOf? (d :: rest) := by
  have hscalar : name ∉ ValueType.elementNames := by
    have hall : forall other, other ∈ ValueType.elementNames -> other.toList.head? ≠ some 'v' := by
      decide
    exact fun hmem => hall name hmem (by rw [hname, List.head?_cons])
  have hvoid : name ≠ "void" := by
    rintro rfl
    have htail : ['o', 'i', 'd'] = d :: rest := List.tail_eq_of_cons_eq hname
    rw [← List.head_eq_of_cons_eq htail] at hd
    cases hd
  have haggregate : name ≠ "agg" := by
    rintro rfl
    cases hname
  rw [ValueType.ofAnnotation?, if_neg hscalar, if_neg hvoid, if_neg haggregate, hname]
  rfl

theorem ofAnnotation?_eq_some {name : String} {type : ValueType} :
    ValueType.ofAnnotation? name = some type <-> TypeName name type := by
  constructor
  · intro h
    unfold ValueType.ofAnnotation? at h
    split at h
    · cases h
      exact TypeName.scalar ‹_›
    · split at h
      · cases h
        subst name
        exact TypeName.void
      · split at h
        · cases h
          subst name
          exact TypeName.aggregate
        · split at h
          · rename_i rest hname
            rcases vectorOf?_eq_some.mp h with ⟨digits, element, hne, hdigits, hpos, hlt, hmem,
              rfl, rfl⟩
            rw [← String.ofList_toList (s := name), hname]
            exact TypeName.vector hne hdigits hpos hlt hmem
          · cases h
  · intro h
    cases h with
    | scalar hmem => rw [ValueType.ofAnnotation?, if_pos hmem]
    | void | aggregate => rfl
    | vector hne hdigits hpos hlt hmem =>
        rename_i digits element
        cases digits with
        | nil => exact absurd rfl hne
        | cons d ds =>
            rw [List.cons_append,
              ofAnnotation?_of_digit String.toList_ofList (hdigits d List.mem_cons_self)]
            exact vectorOf?_eq_some.mpr ⟨_, _, hne, hdigits, hpos, hlt, hmem, rfl, rfl⟩

/-!
## Definitions
-/

theorem definitionText_of_typing {v : Variable} (hname : NameText cs name more)
    (h : typing name more = .ok (v, rest)) : DefinitionText ('%' :: cs) v rest := by
  unfold typing at h
  split at h
  · split at h
    · cases h
    · rename_i htext
      split at h
      · cases h
      · rename_i htype
        cases h
        exact DefinitionText.annotated hname (identifier_eq_ok.mp htext)
          (ofAnnotation?_eq_some.mp htype)
  · cases h
    exact DefinitionText.plain hname

theorem typing_of_head? (hcs : cs.head? ≠ some ':') :
    typing name cs = .ok (⟨name, .scalar⟩, cs) := by
  unfold typing
  split
  · exact absurd rfl hcs
  · rfl

theorem definitionText_of_definition {v : Variable} (h : definition cs = .ok (v, rest)) :
    DefinitionText (skip cs) v rest := by
  simp only [definition, bind_eq_ok] at h
  rcases h with ⟨afterMark, hmark, ⟨name, afterName⟩, hname, h⟩
  rw [(skip_eq_cons (by decide)).mpr ((expect_eq_ok (by decide)).mp hmark)]
  exact definitionText_of_typing (identifier_eq_ok.mp hname) h

/-- A definition that no colon follows is read as it stands. -/
theorem definition_of_definitionText {v : Variable} (h : DefinitionText (skip cs) v rest)
    (hcolon : rest.head? ≠ some ':') : definition cs = .ok (v, rest) := by
  have hspaces := spaces_skip cs
  simp only [definition, bind_eq_ok]
  generalize skip cs = front at h hspaces
  cases h with
  | plain hname =>
      exact ⟨_, (expect_eq_ok (by decide)).mpr hspaces, _, identifier_eq_ok.mpr hname,
        typing_of_head? hcolon⟩
  | annotated hname htext htype =>
      refine ⟨_, (expect_eq_ok (by decide)).mpr hspaces, _, identifier_eq_ok.mpr hname, ?_⟩
      simp only [typing, identifier_eq_ok.mpr htext, ofAnnotation?_eq_some.mpr htype]

theorem DefinitionText.head {v : Variable} (h : DefinitionText cs v rest) :
    exists front, cs = '%' :: front := by
  cases h with
  | plain => exact ⟨_, rfl⟩
  | annotated => exact ⟨_, rfl⟩

end Tir
end LoopNest
