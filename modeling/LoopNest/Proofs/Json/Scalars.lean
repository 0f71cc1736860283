import LoopNest.Proofs.Json.Grammar
import Mathlib.Data.List.TakeWhile

/-!
# Reading numbers and strings

The readers of numbers and strings agree with the grammar: they stop behind a piece that the
grammar allows, and they read such a piece in front of any text that cannot prolong it.
-/

namespace LoopNest

def Stops (p : Char -> Bool) (cs : List Char) : Prop :=
  forall c, cs.head? = some c -> p c = false

theorem stops_cons {p : Char -> Bool} {c : Char} {cs : List Char} :
    Stops p (c :: cs) <-> p c = false := by
  simp [Stops]

namespace Numeral

variable {cs rest digits whole front back : List Char} {n : Numeral} {negative : Bool}
  {fraction : Option (List Char)} {exponent : Option (Bool × List Char)}

/-!
## Digits
-/

theorem readDigits_eq_ok :
    readDigits cs = .ok (digits, rest) <->
      DigitsText digits ∧ cs = digits ++ rest ∧ Stops Char.isDigit rest := by
  constructor
  · intro h
    cases cs with
    | nil => cases h
    | cons c cs =>
        rw [readDigits] at h
        split at h
        · rename_i hc
          cases h
          refine ⟨⟨List.cons_ne_nil _ _, ?_⟩, ?_, ?_⟩
          · intro d hd
            rcases List.mem_cons.mp hd with rfl | hd
            · exact hc
            · exact List.mem_takeWhile_imp hd
          · rw [List.cons_append, List.takeWhile_append_dropWhile]
          · intro d hd
            have hnot := List.head?_dropWhile_not Char.isDigit cs
            rw [hd] at hnot
            simpa using hnot
        · cases h
  · rintro ⟨⟨hne, hdigits⟩, rfl, hrest⟩
    cases digits with
    | nil => exact absurd rfl hne
    | cons c digits =>
        rw [List.forall_mem_cons] at hdigits
        have hspan : rest.takeWhile Char.isDigit = [] ∧ rest.dropWhile Char.isDigit = rest := by
          cases rest with
          | nil => exact ⟨rfl, rfl⟩
          | cons d rest =>
              have hd := stops_cons.mp hrest
              exact ⟨List.takeWhile_cons_of_neg (by simp [hd]),
                List.dropWhile_cons_of_neg (by simp [hd])⟩
        rw [List.cons_append, readDigits, if_pos hdigits.1,
          List.takeWhile_append_of_pos hdigits.2, List.dropWhile_append_of_pos hdigits.2,
          hspan.1, hspan.2, List.append_nil]

theorem readWhole_eq_ok :
    readWhole cs = .ok (whole, rest) <->
      WholeText whole ∧ cs = whole ++ rest ∧ Stops Char.isDigit rest := by
  unfold readWhole
  split
  · rename_i c more
    constructor
    · intro h
      split at h
      · cases h
      · rename_i hc
        cases h
        exact ⟨⟨⟨List.cons_ne_nil _ _, by simp⟩, fun _ => rfl⟩, rfl,
          stops_cons.mpr (Bool.not_eq_true _ ▸ hc)⟩
    · rintro ⟨⟨⟨hne, _⟩, hzero⟩, heq, hrest⟩
      cases whole with
      | nil => exact absurd rfl hne
      | cons d whole =>
          injection heq with hd hmore
          subst hd
          cases hzero rfl
          subst hmore
          rw [if_neg (by simp [stops_cons.mp hrest])]
  · rename_i hlead
    rw [readDigits_eq_ok]
    constructor
    · rintro ⟨hdigits, rfl, hrest⟩
      refine ⟨⟨hdigits, fun hzero => ?_⟩, rfl, hrest⟩
      rcases List.head?_eq_some_iff.mp hzero with ⟨more, rfl⟩
      cases more with
      | nil => rfl
      | cons c more => exact absurd rfl (hlead c (more ++ rest))
    · rintro ⟨hwhole, heq, hrest⟩
      exact ⟨hwhole.1, heq, hrest⟩

/-!
## Fractions and exponents
-/

theorem fractionText_of_read (h : readFraction cs = .ok (fraction, rest)) :
    exists front, FractionText front fraction ∧ cs = front ++ rest := by
  unfold readFraction at h
  split at h
  · rcases bind_eq_ok.mp h with ⟨⟨digits, more⟩, hdigits, hrest⟩
    rcases readDigits_eq_ok.mp hdigits with ⟨htext, rfl, _⟩
    cases hrest
    exact ⟨_, FractionText.some htext, rfl⟩
  · cases h
    exact ⟨[], FractionText.none, rfl⟩

theorem FractionText.read (h : FractionText front fraction) (hdigit : Stops Char.isDigit rest)
    (hpoint : Stops (· == '.') rest) : readFraction (front ++ rest) = .ok (fraction, rest) := by
  cases h with
  | none =>
      unfold readFraction
      split
      · rename_i heq
        have hc := hpoint '.' (by rw [List.nil_append] at heq; rw [heq]; rfl)
        cases hc
      · rfl
  | some hdigits =>
      rw [List.cons_append, readFraction, readDigits_eq_ok.mpr ⟨hdigits, rfl, hdigit⟩]
      rfl

theorem FractionText.stops (h : FractionText front fraction) (hrest : Stops Char.isDigit rest) :
    Stops Char.isDigit (front ++ rest) := by
  cases h with
  | none => exact hrest
  | some => exact stops_cons.mpr (by decide)

def marksExponent (c : Char) : Bool :=
  c == 'e' || c == 'E'

theorem marksExponent_iff {c : Char} : marksExponent c = true <-> c = 'e' ∨ c = 'E' := by
  simp [marksExponent]

theorem exponentText_of_read (h : readExponent cs = .ok (exponent, rest)) :
    exists back, ExponentText back exponent ∧ cs = back ++ rest := by
  cases cs with
  | nil =>
      cases h
      exact ⟨[], ExponentText.none, rfl⟩
  | cons mark cs =>
      rw [readExponent] at h
      split at h
      · rename_i hmark
        rcases bind_eq_ok.mp h with ⟨⟨digits, more⟩, hdigits, hrest⟩
        cases hrest
        unfold exponentSign at hdigits ⊢
        split at hdigits
        · rcases readDigits_eq_ok.mp hdigits with ⟨htext, rfl, _⟩
          exact ⟨_, ExponentText.plus hmark htext, rfl⟩
        · rcases readDigits_eq_ok.mp hdigits with ⟨htext, rfl, _⟩
          exact ⟨_, ExponentText.minus hmark htext, rfl⟩
        · rcases readDigits_eq_ok.mp hdigits with ⟨htext, rfl, _⟩
          exact ⟨_, ExponentText.plain hmark htext, rfl⟩
      · cases h
        exact ⟨[], ExponentText.none, rfl⟩

theorem exponentSign_digits (h : DigitsText digits) :
    exponentSign (digits ++ rest) = (false, digits ++ rest) := by
  rcases h with ⟨hne, hdigits⟩
  cases digits with
  | nil => exact absurd rfl hne
  | cons c digits =>
      have hc := hdigits c List.mem_cons_self
      unfold exponentSign
      split
      · rename_i heq
        cases heq
        exact absurd hc (by decide)
      · rename_i heq
        cases heq
        exact absurd hc (by decide)
      · rfl

theorem ExponentText.read (h : ExponentText back exponent) (hdigit : Stops Char.isDigit rest)
    (hmark : Stops marksExponent rest) : readExponent (back ++ rest) = .ok (exponent, rest) := by
  have hread {digits : List Char} (hdigits : DigitsText digits) :
      readDigits (digits ++ rest) = .ok (digits, rest) :=
    readDigits_eq_ok.mpr ⟨hdigits, rfl, hdigit⟩
  cases h with
  | none =>
      cases rest with
      | nil => rfl
      | cons c rest =>
          have hc : ¬ (c = 'e' ∨ c = 'E') := by
            rw [← marksExponent_iff, stops_cons.mp hmark]
            exact Bool.false_ne_true
          rw [List.nil_append, readExponent, if_neg hc]
  | plain hback hdigits =>
      rw [List.cons_append, readExponent, if_pos hback, exponentSign_digits hdigits,
        hread hdigits]
      rfl
  | plus hback hdigits =>
      rw [List.cons_append, readExponent, if_pos hback, List.cons_append, exponentSign,
        hread hdigits]
      rfl
  | minus hback hdigits =>
      rw [List.cons_append, readExponent, if_pos hback, List.cons_append, exponentSign,
        hread hdigits]
      rfl

theorem ExponentText.stops {p : Char -> Bool} (h : ExponentText back exponent)
    (hp : p 'e' = false ∧ p 'E' = false) (hrest : Stops p rest) : Stops p (back ++ rest) := by
  have hfront {mark : Char} {more : List Char} (hmark : mark = 'e' ∨ mark = 'E') :
      Stops p (mark :: more) := by
    rw [stops_cons]
    rcases hmark with rfl | rfl
    · exact hp.1
    · exact hp.2
  cases h with
  | none => exact hrest
  | plain hmark _ => exact hfront hmark
  | plus hmark _ => exact hfront hmark
  | minus hmark _ => exact hfront hmark

/-!
## Numerals
-/

/-- Can the character prolong a number? -/
def continues (c : Char) : Bool :=
  c.isDigit || c == '.' || marksExponent c

theorem unsignedText_of_read (h : readUnsigned negative cs = .ok (n, rest)) :
    exists text, UnsignedText text n ∧ n.negative = negative ∧ cs = text ++ rest := by
  simp only [readUnsigned, bind_eq_ok] at h
  rcases h with ⟨⟨whole, afterWhole⟩, hwhole, ⟨fraction, afterFraction⟩, hfraction,
    ⟨exponent, afterExponent⟩, hexponent, h⟩
  rcases readWhole_eq_ok.mp hwhole with ⟨hwholeText, rfl, _⟩
  rcases fractionText_of_read hfraction with ⟨front, hfront, rfl⟩
  rcases exponentText_of_read hexponent with ⟨back, hback, rfl⟩
  cases h
  refine ⟨whole ++ (front ++ back), UnsignedText.mk hwholeText hfront hback, rfl, ?_⟩
  simp only [List.append_assoc]

theorem UnsignedText.read (h : UnsignedText cs n) (hrest : Stops continues rest) :
    readUnsigned n.negative (cs ++ rest) = .ok (n, rest) := by
  have hdigit : Stops Char.isDigit rest := by
    intro c hc
    have hcontinues := hrest c hc
    simp only [continues, Bool.or_eq_false_iff] at hcontinues
    exact hcontinues.1.1
  have hpoint : Stops (· == '.') rest := by
    intro c hc
    have hcontinues := hrest c hc
    simp only [continues, Bool.or_eq_false_iff] at hcontinues
    exact hcontinues.1.2
  have hmark : Stops marksExponent rest := by
    intro c hc
    have hcontinues := hrest c hc
    simp only [continues, Bool.or_eq_false_iff] at hcontinues
    exact hcontinues.2
  cases h with
  | mk hwhole hfront hback =>
      rename_i negative whole front back fraction exponent
      have hdigit' := hback.stops (p := Char.isDigit) (by decide) hdigit
      have hpoint' := hback.stops (p := (· == '.')) (by decide) hpoint
      have hread := readWhole_eq_ok.mpr ⟨hwhole, rfl, hfront.stops hdigit'⟩
      simp only [List.append_assoc, readUnsigned, hread, hfront.read hdigit' hpoint',
        hback.read hdigit hmark, bind, Except.bind, pure, Except.pure]

end Numeral

/-!
## Strings
-/

namespace JsonText

variable {cs rest text : List Char} {letter c : Char}

theorem short?_eq_some : short? letter = some c <-> (letter, c) ∈ escapes := by
  constructor
  · intro h
    unfold short? at h
    split at h
    · rename_i hself
      cases h
      rcases hself with rfl | rfl | rfl
      all_goals decide
    · repeat' split at h
      all_goals
        cases h
        try subst letter
        try decide
  · intro h
    simp only [escapes, List.mem_cons, Prod.mk.injEq, List.not_mem_nil, or_false] at h
    rcases h with h | h | h | h | h | h | h | h
    all_goals
      rcases h with ⟨rfl, rfl⟩
      rfl

theorem unit_eq_ok {value : Nat} :
    unit cs = .ok (value, rest) <->
      exists a b c d, hexValue? a b c d = some value ∧ cs = a :: b :: c :: d :: rest := by
  unfold unit
  constructor
  · intro h
    split at h
    · rename_i a b c d more
      split at h
      · rename_i hvalue
        cases h
        exact ⟨a, b, c, d, hvalue, rfl⟩
      · cases h
    · cases h
  · rintro ⟨a, b, c, d, hvalue, rfl⟩
    simp only [hvalue]

theorem unit_of_hexValue {a b d e : Char} {value : Nat} (h : hexValue? a b d e = some value)
    (rest : List Char) : unit (a :: b :: d :: e :: rest) = .ok (value, rest) :=
  unit_eq_ok.mpr ⟨a, b, d, e, h, rfl⟩

theorem secondEscape_eq_ok : secondEscape cs = .ok rest <-> cs = '\\' :: 'u' :: rest := by
  constructor
  · intro h
    unfold secondEscape at h
    split at h
    all_goals cases h
    rfl
  · rintro rfl
    rfl

theorem escapeText_of_unit (h : unitEscape cs = .ok (c, rest)) :
    exists front, EscapeText ('u' :: front) c ∧ cs = front ++ rest := by
  simp only [unitEscape, bind_eq_ok] at h
  rcases h with ⟨⟨first, afterFirst⟩, hfirst, h⟩
  rcases unit_eq_ok.mp hfirst with ⟨a, b, d, e, hvalue, rfl⟩
  simp only at h
  split at h
  · cases h
  · rename_i htrailing
    split at h
    · rename_i hleading
      rw [bind_eq_ok] at h
      rcases h with ⟨afterMarks, hmarks, h⟩
      rw [bind_eq_ok] at h
      rcases h with ⟨⟨second, afterSecond⟩, hsecond, h⟩
      cases secondEscape_eq_ok.mp hmarks
      rcases unit_eq_ok.mp hsecond with ⟨a', b', d', e', hvalue', rfl⟩
      simp only at h
      split at h
      · rename_i htrailing'
        simp only [Except.ok.injEq, Prod.mk.injEq] at h
        rcases h with ⟨rfl, rfl⟩
        exact ⟨_, EscapeText.pair hvalue hleading hvalue' htrailing', rfl⟩
      · cases h
    · rename_i hleading
      simp only [Except.ok.injEq, Prod.mk.injEq] at h
      rcases h with ⟨rfl, rfl⟩
      exact ⟨_, EscapeText.unit hvalue (Bool.not_eq_true _ ▸ hleading)
        (Bool.not_eq_true _ ▸ htrailing), rfl⟩

theorem isTrailing_of_isLeading {value : Nat} (h : isLeading value = true) :
    isTrailing value = false := by
  simp only [isLeading, isTrailing, Bool.and_eq_true, decide_eq_true_eq] at h ⊢
  rw [← Bool.not_eq_true]
  simp only [Bool.and_eq_true, decide_eq_true_eq]
  lia

theorem escape_eq_ok :
    escape cs = .ok (c, rest) <-> exists front, EscapeText front c ∧ cs = front ++ rest := by
  constructor
  · intro h
    unfold escape at h
    split at h
    · cases h
    · rename_i letter cs
      split at h
      · rename_i hshort
        cases h
        exact ⟨[letter], EscapeText.letter (short?_eq_some.mp hshort), rfl⟩
      · split at h
        · rename_i hletter
          subst hletter
          rcases escapeText_of_unit h with ⟨front, htext, rfl⟩
          exact ⟨_, htext, rfl⟩
        · cases h
  · rintro ⟨front, htext, rfl⟩
    have hletter : short? 'u' = none := rfl
    cases htext with
    | letter hmem => simp only [List.cons_append, escape, short?_eq_some.mpr hmem, List.nil_append]
    | unit hvalue hleading htrailing =>
        simp only [List.cons_append, List.nil_append, escape, hletter, unitEscape,
          unit_of_hexValue hvalue, bind, Except.bind, hleading, htrailing, Bool.false_eq_true,
          if_true, if_false]
    | pair hvalue hleading hvalue' htrailing =>
        simp only [List.cons_append, List.nil_append, escape, hletter, unitEscape,
          unit_of_hexValue hvalue, bind, Except.bind, isTrailing_of_isLeading hleading, hleading,
          Bool.false_eq_true, if_false, if_true, secondEscape, unit_of_hexValue hvalue', htrailing]

theorem charactersText_of_read (h : characters text = .ok (cs, rest)) :
    exists front, CharactersText front cs ∧ text = front ++ '"' :: rest := by
  fun_induction characters text generalizing cs rest with
  | case1 => cases h
  | case2 =>
      cases h
      exact ⟨[], CharactersText.nil, rfl⟩
  | case3 => cases h
  | case4 front d more hstep _ ih =>
      rcases consItem_eq_ok.mp h with ⟨ds, hds, rfl⟩
      rcases ih hds with ⟨text, htext, rfl⟩
      rcases escape_eq_ok.mp hstep with ⟨mark, hmark, rfl⟩
      refine ⟨'\\' :: (mark ++ text), CharactersText.escape hmark htext, ?_⟩
      simp only [List.cons_append, List.append_assoc]
  | case5 => cases h
  | case6 c more hquote hslash hcontrol ih =>
      rcases consItem_eq_ok.mp h with ⟨ds, hds, rfl⟩
      rcases ih hds with ⟨text, htext, rfl⟩
      exact ⟨c :: text, CharactersText.plain hquote hslash (Nat.le_of_not_lt hcontrol) htext, rfl⟩

theorem CharactersText.read (h : CharactersText text cs) :
    characters (text ++ '"' :: rest) = .ok (cs, rest) := by
  induction h with
  | nil =>
      rw [List.nil_append, characters]
      rfl
  | plain hquote hslash hcontrol _ ih =>
      rw [List.cons_append, characters, if_neg hquote, if_neg hslash,
        if_neg (Nat.not_lt_of_le hcontrol), ih]
      rfl
  | escape hmark _ ih =>
      rename_i front text cs c _
      have hread := escape_eq_ok.mpr ⟨front, hmark, (List.append_assoc front text ('"' :: rest))⟩
      rw [List.cons_append, characters, if_neg (by decide), if_pos rfl]
      split
      · rename_i heq
        rw [hread] at heq
        cases heq
      · rename_i heq
        rw [hread] at heq
        cases heq
        rw [ih]
        rfl

theorem read_eq_ok {value : String} :
    read cs = .ok (value, rest) <->
      exists text, StringText ('"' :: text) value ∧ cs = text ++ rest := by
  unfold read
  constructor
  · intro h
    split at h
    · cases h
    · rename_i hread
      cases h
      rcases charactersText_of_read hread with ⟨front, htext, rfl⟩
      exact ⟨front ++ ['"'], StringText.mk htext, by simp⟩
  · rintro ⟨text, htext, rfl⟩
    cases htext with
    | mk htext =>
        rw [List.append_assoc, List.singleton_append, htext.read]

end JsonText
end LoopNest
