import LoopNest.Text.Quoted
import Mathlib.Data.List.Basic

/-!
# Quoted texts

A quotation consists of visible characters only, and it tells what was quoted: the form of a
character inside a quotation can be told from what follows it, and no form starts with the
closing mark.
-/

namespace LoopNest
namespace Text

/-!
## Tables of ranges

The search in a table stops at the first range that ends at or behind the code point.  It finds
every range because the ranges stand in order.
-/

/-- The ranges stand in order from a code point on, with a gap between any two of them. -/
def InOrder (bound : Nat) : List (Nat × Nat) -> Prop
  | [] => True
  | (low, high) :: rest => bound ≤ low ∧ low ≤ high ∧ InOrder (high + 2) rest

instance decidableInOrder : forall (bound : Nat) (ranges : List (Nat × Nat)),
    Decidable (InOrder bound ranges)
  | _, [] => isTrue trivial
  | bound, (low, high) :: rest =>
      have := decidableInOrder (high + 2) rest
      inferInstanceAs (Decidable (bound ≤ low ∧ low ≤ high ∧ InOrder (high + 2) rest))

theorem InOrder.low_le {bound : Nat} {ranges : List (Nat × Nat)} (h : InOrder bound ranges)
    {range : Nat × Nat} (hrange : range ∈ ranges) : bound ≤ range.1 := by
  induction ranges generalizing bound with
  | nil => cases hrange
  | cons first rest ih =>
      rcases List.mem_cons.mp hrange with rfl | hrest
      · exact h.1
      · have hlow := ih h.2.2 hrest
        have hfirst := h.1
        have hhigh := h.2.1
        omega

theorem inRanges_iff {bound : Nat} {ranges : List (Nat × Nat)} (h : InOrder bound ranges)
    {code : Nat} :
    inRanges ranges code = true <->
      exists range, range ∈ ranges ∧ range.1 ≤ code ∧ code ≤ range.2 := by
  induction ranges generalizing bound with
  | nil => simp [inRanges]
  | cons first rest ih =>
      rcases first with ⟨low, high⟩
      rw [inRanges]
      split
      · rename_i hhigh
        rw [decide_eq_true_iff]
        constructor
        · exact fun hlow => ⟨_, List.mem_cons_self, hlow, hhigh⟩
        · intro h
          rcases h with ⟨range, hrange, hlow, _⟩
          rcases List.mem_cons.mp hrange with rfl | hrest
          · exact hlow
          · -- a later range starts behind the code point
            have hbehind := h.2.2.low_le hrest
            omega
      · rename_i hhigh
        rw [ih h.2.2]
        constructor
        · intro h
          rcases h with ⟨range, hrange, hcode⟩
          exact ⟨range, List.mem_cons_of_mem _ hrange, hcode⟩
        · intro h
          rcases h with ⟨range, hrange, hcode⟩
          rcases List.mem_cons.mp hrange with rfl | hrest
          · exact absurd hcode.2 hhigh
          · exact ⟨range, hrest, hcode⟩

theorem isBlank_iff {c : Char} :
    isBlank c = true <->
      exists range, range ∈ blankRanges ∧ range.1 ≤ c.toNat ∧ c.toNat ≤ range.2 :=
  inRanges_iff (show InOrder 0 blankRanges by decide +kernel)

theorem isLetter_iff {c : Char} :
    isLetter c = true <->
      exists range, range ∈ letterRanges ∧ range.1 ≤ c.toNat ∧ c.toNat ≤ range.2 :=
  inRanges_iff (show InOrder 0 letterRanges by decide +kernel)

theorem isNumeral_iff {c : Char} :
    isNumeral c = true <->
      exists range, range ∈ numeralRanges ∧ range.1 ≤ c.toNat ∧ c.toNat ≤ range.2 :=
  inRanges_iff (show InOrder 0 numeralRanges by decide +kernel)

theorem isVisible_iff {c : Char} :
    isVisible c = true <->
      forall range, range ∈ hiddenRanges -> ¬ (range.1 ≤ c.toNat ∧ c.toNat ≤ range.2) := by
  rw [isVisible, Bool.not_eq_true', ← Bool.not_eq_true,
    inRanges_iff (show InOrder 0 hiddenRanges by decide +kernel)]
  simp only [not_exists, not_and]

/-!
## Code points in digits

A code point is given by its digits to the base sixteen.
-/

theorem digitChar_inj : forall {m : Nat}, m < 16 -> forall {n : Nat}, n < 16 ->
    Nat.digitChar m = Nat.digitChar n -> m = n := by
  decide

theorem isVisible_digitChar : forall {n : Nat}, n < 16 ->
    isVisible (Nat.digitChar n) = true := by
  decide +kernel

theorem digitChar_ne_brace : forall {n : Nat}, n < 16 -> Nat.digitChar n ≠ '\x7d' := by
  decide

theorem exists_of_mem_toDigits {n : Nat} {c : Char} (h : c ∈ Nat.toDigits 16 n) :
    exists d, d < 16 ∧ c = Nat.digitChar d := by
  induction n using Nat.strongRecOn with
  | ind n ih =>
      rw [Nat.toDigits_eq_if (by decide)] at h
      split at h
      · rename_i hn
        exact ⟨n, hn, List.mem_singleton.mp h⟩
      · rename_i hn
        rcases List.mem_append.mp h with hfront | hlast
        · exact ih (n / 16) (Nat.div_lt_self (by omega) (by decide)) hfront
        · exact ⟨n % 16, Nat.mod_lt _ (by decide), List.mem_singleton.mp hlast⟩

theorem singleton_ne_toDigits_append {n : Nat} {c d : Char} :
    [c] ≠ Nat.toDigits 16 n ++ [d] := by
  intro h
  have hlength := congrArg List.length h
  have hpos : 0 < (Nat.toDigits 16 n).length := Nat.length_toDigits_pos
  rw [List.length_append, List.length_singleton, List.length_singleton] at hlength
  omega

theorem toDigits_inj {m n : Nat} (h : Nat.toDigits 16 m = Nat.toDigits 16 n) : m = n := by
  induction m using Nat.strongRecOn generalizing n with
  | ind m ih =>
      rw [Nat.toDigits_eq_if (by decide), @Nat.toDigits_eq_if 16 n (by decide)] at h
      split at h
      · rename_i hm
        split at h
        · rename_i hn
          exact digitChar_inj hm hn (List.cons.inj h).1
        · exact absurd h singleton_ne_toDigits_append
      · rename_i hm
        split at h
        · exact absurd h.symm singleton_ne_toDigits_append
        · rcases List.append_inj' h rfl with ⟨hfront, hlast⟩
          have hdiv := ih (m / 16) (Nat.div_lt_self (by omega) (by decide)) hfront
          have hmod := digitChar_inj (Nat.mod_lt m (by decide)) (Nat.mod_lt n (by decide))
            (List.cons.inj hlast).1
          omega

theorem toDigits_append_brace_inj {m n : Nat} {us ws : List Char}
    (h : Nat.toDigits 16 m ++ '\x7d' :: us = Nat.toDigits 16 n ++ '\x7d' :: ws) :
    m = n ∧ us = ws := by
  have hdigits : forall k c, c ∈ Nat.toDigits 16 k -> c ≠ '\x7d' := by
    intro k c hc
    rcases exists_of_mem_toDigits hc with ⟨d, hd, rfl⟩
    exact digitChar_ne_brace hd
  have htake : forall k rest, (Nat.toDigits 16 k ++ '\x7d' :: rest).takeWhile (· ≠ '\x7d') =
      Nat.toDigits 16 k := by
    intro k rest
    rw [List.takeWhile_append_of_pos fun c hc => decide_eq_true (hdigits k c hc)]
    simp
  have hmn : m = n := toDigits_inj (by rw [← htake m us, h, htake])
  subst hmn
  exact ⟨rfl, (List.cons.inj (List.append_cancel_left h)).2⟩

/-!
## Forms inside a quotation

A character stands for itself, behind a backslash by a name of one letter, or behind a backslash
by its code point.
-/

/-- The character that a name of one letter stands for. -/
def ofName : Char -> Char
  | '0' => '\x00'
  | 't' => '\t'
  | 'r' => '\r'
  | 'n' => '\n'
  | c => c

inductive Form (mark c : Char) : List Char -> Prop where
  | plain (hslash : c ≠ '\\') (hmark : c ≠ mark) (hc : isVisible c = true) : Form mark c [c]
  | named (name : Char) (hname : name ≠ 'u') (hvisible : isVisible name = true)
      (hc : ofName name = c) : Form mark c ['\\', name]
  | code : Form mark c (['\\', 'u', '\x7b'] ++ Nat.toDigits 16 c.toNat ++ ['\x7d'])

section Marks

variable {mark : Char} (hmark : mark = '"' ∨ mark = '\'')

include hmark

theorem form_escaped (c : Char) : Form mark c (escaped mark c) := by
  have hmarks : mark ≠ 'u' ∧ isVisible mark = true ∧ ofName mark = mark := by
    rcases hmark with rfl | rfl
    · decide +kernel
    · decide +kernel
  rw [escaped]
  split
  · rename_i h
    exact .named '0' (by decide) (by decide +kernel) h.symm
  split
  · rename_i h
    exact .named 't' (by decide) (by decide +kernel) h.symm
  split
  · rename_i h
    exact .named 'r' (by decide) (by decide +kernel) h.symm
  split
  · rename_i h
    exact .named 'n' (by decide) (by decide +kernel) h.symm
  split
  · rename_i h
    rcases h with rfl | rfl
    · exact .named '\\' (by decide) (by decide +kernel) rfl
    · exact .named c hmarks.1 hmarks.2.1 hmarks.2.2
  rename_i hplain
  split
  · rename_i hc
    exact .plain (fun h => hplain (Or.inl h)) (fun h => hplain (Or.inr h)) hc
  · exact .code

theorem form_ne_mark {c : Char} {as us ws : List Char} (h : Form mark c as) :
    mark :: us ≠ as ++ ws := by
  have hslash : mark ≠ '\\' := by
    rcases hmark with rfl | rfl
    · decide
    · decide
  intro heq
  cases h with
  | plain _ hc _ => exact hc (List.cons.inj heq).1.symm
  | named _ _ _ _ => exact hslash (List.cons.inj heq).1
  | code => exact hslash (List.cons.inj heq).1

/-- A form tells its character and where it ends. -/
theorem escaped_append_inj {c d : Char} {us ws : List Char}
    (h : escaped mark c ++ us = escaped mark d ++ ws) : c = d ∧ us = ws := by
  have hc := form_escaped hmark c
  have hd := form_escaped hmark d
  generalize escaped mark c = as at h hc
  generalize escaped mark d = bs at h hd
  cases hc with
  | plain hslash _ _ =>
      cases hd with
      | plain _ _ _ => exact List.cons.inj h
      | named _ _ _ _ => exact absurd (List.cons.inj h).1 hslash
      | code => exact absurd (List.cons.inj h).1 hslash
  | named name hname _ hc =>
      cases hd with
      | plain hslash _ _ => exact absurd (List.cons.inj h).1.symm hslash
      | named other _ _ hd =>
          rcases List.cons.inj (List.cons.inj h).2 with ⟨rfl, hrest⟩
          exact ⟨hc.symm.trans hd, hrest⟩
      | code => exact absurd (List.cons.inj (List.cons.inj h).2).1 hname
  | code =>
      cases hd with
      | plain hslash _ _ => exact absurd (List.cons.inj h).1.symm hslash
      | named _ hname _ _ => exact absurd (List.cons.inj (List.cons.inj h).2).1.symm hname
      | code =>
          rw [List.append_assoc, List.append_assoc, List.append_assoc, List.append_assoc] at h
          rcases toDigits_append_brace_inj (List.append_cancel_left h) with ⟨hcode, hrest⟩
          exact ⟨Char.toNat_inj.mp hcode, hrest⟩

theorem isVisible_of_mem_escaped {c d : Char} (h : d ∈ escaped mark c) :
    isVisible d = true := by
  have hc := form_escaped hmark c
  generalize escaped mark c = as at h hc
  cases hc with
  | plain _ _ hc =>
      rw [List.mem_singleton.mp h]
      exact hc
  | named name _ hname _ =>
      rcases List.mem_cons.mp h with rfl | hd
      · decide +kernel
      · rw [List.mem_singleton.mp hd]
        exact hname
  | code =>
      have hall : ['\\', 'u', '\x7b', '\x7d'].all isVisible = true := by decide +kernel
      have hmarks := List.all_eq_true.mp hall
      rw [List.append_assoc, List.mem_append, List.mem_append] at h
      rcases h with hopen | hdigit | hclose
      · exact hmarks d (List.mem_append_left ['\x7d'] hopen)
      · rcases exists_of_mem_toDigits hdigit with ⟨k, hk, rfl⟩
        exact isVisible_digitChar hk
      · exact hmarks d (List.mem_append_right ['\\', 'u', '\x7b'] hclose)

theorem flatMap_escaped_append_inj {us ws : List Char} : forall {s t : List Char},
    s.flatMap (escaped mark) ++ mark :: us = t.flatMap (escaped mark) ++ mark :: ws ->
      s = t ∧ us = ws
  | [], [], h => ⟨rfl, (List.cons.inj h).2⟩
  | [], d :: t, h => by
      rw [List.flatMap_cons, List.append_assoc] at h
      exact absurd h (form_ne_mark hmark (form_escaped hmark d))
  | c :: s, [], h => by
      rw [List.flatMap_cons, List.append_assoc] at h
      exact absurd h.symm (form_ne_mark hmark (form_escaped hmark c))
  | c :: s, d :: t, h => by
      rw [List.flatMap_cons, List.flatMap_cons, List.append_assoc, List.append_assoc] at h
      rcases escaped_append_inj hmark h with ⟨rfl, hrest⟩
      rcases flatMap_escaped_append_inj hrest with ⟨rfl, hback⟩
      exact ⟨rfl, hback⟩

end Marks

/-!
## Quotations
-/

theorem isVisible_of_mem_quoteText {s : String} {c : Char} (h : c ∈ (quoteText s).toList) :
    isVisible c = true := by
  rw [quoteText, String.toList_ofList, List.cons_append, List.mem_cons, List.mem_append,
    List.mem_flatMap, List.mem_singleton] at h
  rcases h with rfl | ⟨d, _, hc⟩ | rfl
  · decide +kernel
  · exact isVisible_of_mem_escaped (Or.inl rfl) hc
  · decide +kernel

theorem isVisible_of_mem_quoteChar {c d : Char} (h : d ∈ (quoteChar c).toList) :
    isVisible d = true := by
  rw [quoteChar, String.toList_ofList, List.cons_append, List.mem_cons, List.mem_append,
    List.mem_singleton] at h
  rcases h with rfl | hd | rfl
  · decide +kernel
  · exact isVisible_of_mem_escaped (Or.inr rfl) hd
  · decide +kernel

/-- A quotation tells the text and where it ends. -/
theorem quoteText_append_inj {s t : String} {us ws : List Char}
    (h : (quoteText s).toList ++ us = (quoteText t).toList ++ ws) : s = t ∧ us = ws := by
  simp only [quoteText, String.toList_ofList, List.cons_append, List.append_assoc,
    List.nil_append] at h
  rcases flatMap_escaped_append_inj (Or.inl rfl) (List.cons.inj h).2 with ⟨hst, hrest⟩
  exact ⟨String.toList_inj.mp hst, hrest⟩

theorem quoteChar_append_inj {c d : Char} {us ws : List Char}
    (h : (quoteChar c).toList ++ us = (quoteChar d).toList ++ ws) : c = d ∧ us = ws := by
  simp only [quoteChar, String.toList_ofList, List.cons_append, List.append_assoc,
    List.nil_append] at h
  rcases escaped_append_inj (Or.inr rfl) (List.cons.inj h).2 with ⟨hcd, hrest⟩
  exact ⟨hcd, (List.cons.inj hrest).2⟩

end Text
end LoopNest
