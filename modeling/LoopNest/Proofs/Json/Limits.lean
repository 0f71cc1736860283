import LoopNest.Proofs.Json.Grammar
import Mathlib.Algebra.Group.Nat.Defs

/-!
# The limits of the reader

A document has a value if it is not nested too deeply and none of its numbers is too large.  How
large a number may be is told by arithmetic on natural numbers: its digits are gathered into a
significand, and the significand and the remaining power of ten are rounded before they are
multiplied.  So some numbers below the greatest double are too large, and some above it are not.
-/

namespace LoopNest
namespace Numeral

/-!
## Rounding
-/

/-- A number of at most 53 binary digits with zeros behind them. -/
def IsDouble (n : Nat) : Prop :=
  exists count power, count < 2 ^ 53 ∧ n = count * 2 ^ power

def distance (a b : Nat) : Nat :=
  (a - b) + (b - a)

variable {n d s k whole value left : Nat} {digits front back : List Char}

/-- The step between the doubles around a number. -/
def unit (n : Nat) : Nat :=
  2 ^ (n.log2 - 52)

theorem unit_pos (n : Nat) : 0 < unit n :=
  Nat.two_pow_pos _

theorem div_unit_lt (n : Nat) : n / unit n < 2 ^ 53 := by
  rw [Nat.div_lt_iff_lt_mul (unit_pos n), unit, ← Nat.pow_add]
  exact Nat.lt_of_lt_of_le Nat.lt_log2_self (Nat.pow_le_pow_right (by decide) (by lia))

theorem nearestDouble_cases (n : Nat) :
    (nearestDouble n = n / unit n * unit n ∧ 2 * (n % unit n) ≤ unit n) ∨
      (nearestDouble n = (n / unit n + 1) * unit n ∧ unit n ≤ 2 * (n % unit n)) := by
  have hunit : Nat.pow 2 (n.log2 - 52) = unit n := rfl
  simp only [nearestDouble, hunit]
  split
  · exact Or.inr ⟨rfl, by lia⟩
  · exact Or.inl ⟨rfl, by lia⟩

theorem isDouble_nearestDouble (n : Nat) : IsDouble (nearestDouble n) := by
  have hlt := div_unit_lt n
  rcases nearestDouble_cases n with ⟨heq, _⟩ | ⟨heq, _⟩
  · exact ⟨_, _, hlt, heq⟩
  · rcases Nat.lt_or_eq_of_le (Nat.succ_le_of_lt hlt) with hcount | hcount
    · exact ⟨_, _, hcount, heq⟩
    · refine ⟨1, 53 + (n.log2 - 52), by decide, ?_⟩
      rw [heq, ← Nat.succ_eq_add_one, hcount, unit, ← Nat.pow_add, Nat.one_mul]

/-- There is no double between two multiples of the step that follow each other. -/
theorem IsDouble.beside (h : IsDouble d) :
    d ≤ n / unit n * unit n ∨ (n / unit n + 1) * unit n ≤ d := by
  rcases h with ⟨count, power, hcount, rfl⟩
  by_cases hpower : n.log2 - 52 ≤ power
  · -- A multiple of the step lies on one of the two sides.
    have hmultiple : count * 2 ^ power = count * 2 ^ (power - (n.log2 - 52)) * unit n := by
      rw [unit, Nat.mul_assoc, ← Nat.pow_add, Nat.sub_add_cancel hpower]
    rw [hmultiple]
    rcases Nat.lt_or_ge (n / unit n) (count * 2 ^ (power - (n.log2 - 52))) with hlt | hge
    · exact Or.inr (Nat.mul_le_mul_right _ hlt)
    · exact Or.inl (Nat.mul_le_mul_right _ hge)
  · -- A number with a smaller step has fewer binary digits.
    have hn : n ≠ 0 := by
      rintro rfl
      simp at hpower
    left
    have hsmall : count * 2 ^ power ≤ 2 ^ n.log2 := by
      have hpow : 2 ^ 53 * 2 ^ power ≤ 2 ^ n.log2 := by
        rw [← Nat.pow_add]
        exact Nat.pow_le_pow_right (by decide) (by lia)
      exact Nat.le_trans (Nat.mul_le_mul_right _ (Nat.le_of_lt hcount)) hpow
    have hleading : 2 ^ 52 ≤ n / unit n := by
      rw [Nat.le_div_iff_mul_le (unit_pos n), unit, ← Nat.pow_add, Nat.add_sub_cancel' (by lia)]
      exact Nat.log2_self_le hn
    have hsplit : 2 ^ n.log2 = 2 ^ 52 * unit n := by
      rw [unit, ← Nat.pow_add, Nat.add_sub_cancel' (by lia)]
    rw [hsplit] at hsmall
    exact Nat.le_trans hsmall (Nat.mul_le_mul_right _ hleading)

/-- No double is nearer to a number than the one that it is rounded to. -/
theorem nearestDouble_nearest (h : IsDouble d) : distance n (nearestDouble n) ≤ distance n d := by
  have hn : n / unit n * unit n + n % unit n = n := by
    rw [Nat.mul_comm]
    exact Nat.div_add_mod n (unit n)
  have hrest := Nat.mod_lt n (unit_pos n)
  have hnext : (n / unit n + 1) * unit n = n / unit n * unit n + unit n := Nat.succ_mul _ _
  have hbeside := IsDouble.beside (n := n) h
  rw [hnext] at hbeside
  unfold distance
  rcases nearestDouble_cases n with ⟨heq, hle⟩ | ⟨heq, hle⟩
  · rw [heq]
    lia
  · rw [heq, hnext]
    lia

theorem nearestDouble_le (n : Nat) : nearestDouble n ≤ 2 * n := by
  have hzero : IsDouble 0 := ⟨0, 0, by decide, rfl⟩
  have hnear := nearestDouble_nearest (n := n) hzero
  unfold distance at hnear
  lia

/-!
## Significands
-/

def appended (start : Nat) (digits : List Char) : Nat :=
  digits.foldl (fun value c => 10 * value + Decimal.digitValue c) start

/-- As many digits as keep the number below the bound are put behind it.  The others are left. -/
inductive Gathered (start : Nat) : List Char -> Nat -> Nat -> Prop where
  | mk (front back : List Char) :
      appended start front < 2 ^ 64 ->
      (forall c, back.head? = some c -> 2 ^ 64 ≤ appended start (front ++ [c])) ->
      Gathered start (front ++ back) (appended start front) back.length

theorem gathered_gather (hs : s < 2 ^ 64) (digits : List Char) :
    Gathered s digits (gather s digits).1 (gather s digits).2 := by
  induction digits generalizing s with
  | nil => exact Gathered.mk [] [] hs (by simp)
  | cons c digits ih =>
      rw [gather]
      have hbound : significandBound = 2 ^ 64 := rfl
      simp only [hbound]
      split
      · rename_i hnext
        generalize hvalue : gather (10 * s + Decimal.digitValue c) digits = p
        have hrest := ih hnext
        rw [hvalue] at hrest
        rcases p with ⟨value, left⟩
        generalize hstart : 10 * s + Decimal.digitValue c = next at hrest
        cases hrest with
        | mk front back hlt hfull =>
            subst hstart
            exact Gathered.mk (c :: front) back hlt hfull
      · rename_i hnext
        refine Gathered.mk [] (c :: digits) hs ?_
        intro d hd
        cases hd
        exact Nat.le_of_not_lt hnext

/-- Digits behind a number never make it smaller. -/
theorem le_appended (start : Nat) (digits : List Char) : start ≤ appended start digits := by
  induction digits generalizing start with
  | nil => exact Nat.le_refl _
  | cons c digits ih =>
      have hrest := ih (10 * start + Decimal.digitValue c)
      have hfold : appended start (c :: digits) =
          appended (10 * start + Decimal.digitValue c) digits := rfl
      lia

theorem Gathered.lt (h : Gathered s digits value left) : value < 2 ^ 64 := by
  cases h with
  | mk _ _ hlt _ => exact hlt

theorem gather_of_gathered (h : Gathered s digits value left) :
    gather s digits = (value, left) := by
  have hbound : significandBound = 2 ^ 64 := rfl
  cases h with
  | mk front back hlt hfull =>
      induction front generalizing s with
      | nil =>
          cases back with
          | nil => rfl
          | cons c back =>
              have hnext : ¬ 10 * s + Decimal.digitValue c < 2 ^ 64 := Nat.not_lt.mpr (hfull c rfl)
              rw [List.nil_append, gather]
              simp only [hbound, if_neg hnext]
              rfl
      | cons c front ih =>
          have hnext : 10 * s + Decimal.digitValue c < 2 ^ 64 :=
            Nat.lt_of_le_of_lt (le_appended _ front) hlt
          rw [List.cons_append, gather]
          simp only [hbound, if_pos hnext]
          exact ih hlt hfull

/-!
## Numbers in range
-/

/-- A significand times a power of ten is small enough. -/
def StaysFinite (significand : Nat) (k : Int) : Prop :=
  k < 0 ∨ significand = 0 ∨
    (k ≤ greatestPower ∧
      nearestDouble significand * nearestDouble (10 ^ k.toNat) < infinityBound)

/-- A significand whose point has been moved is small enough with the exponent behind it. -/
def ExponentInRange (significand : Nat) (point : Int) : Option (Bool × List Char) -> Prop
  | none => StaysFinite significand point
  | some (true, digits) =>
      2 ^ 31 ≤ Decimal.ofDigits digits ∨
        StaysFinite significand (point - Decimal.ofDigits digits)
  | some (false, digits) =>
      significand = 0 ∨ (Decimal.ofDigits digits < 2 ^ 31 ∧
        StaysFinite significand (point + Decimal.ofDigits digits))

/-- The digits of a numeral are gathered into a significand, which is small enough with the power
of ten that remains. -/
def InRange (n : Numeral) : Prop :=
  exists whole left significand unread,
    Gathered 0 n.whole whole left ∧ Gathered whole (n.fraction.getD []) significand unread ∧
      ExponentInRange significand (left - ((n.fraction.getD []).length - unread : Nat)) n.exponent

theorem scale?_isSome {k : Int} : (scale? s k).isSome <-> StaysFinite s k := by
  unfold scale? StaysFinite
  split
  · rename_i hk
    simp [hk]
  rename_i hk
  split
  · rename_i hs
    simp [hs]
  rename_i hs
  have hle : k.toNat ≤ greatestPower <-> k ≤ greatestPower := by lia
  split
  · rename_i hfinite
    rw [isFinite, Bool.and_eq_true, decide_eq_true_eq, decide_eq_true_eq, hle] at hfinite
    exact iff_of_true rfl (Or.inr (Or.inr hfinite))
  · rename_i hfinite
    rw [isFinite, Bool.and_eq_true, decide_eq_true_eq, decide_eq_true_eq, hle] at hfinite
    refine iff_of_false Bool.false_ne_true ?_
    rintro (hnegative | hzero | hboth)
    · exact hk hnegative
    · exact hs hzero
    · exact hfinite hboth

/-- What decides is the product of the rounded factors: the first number here is below the greatest
double, and the second one is above it. -/
example : isFinite 17976931348623156225 289 = false ∧ isFinite 179769313486231581 291 = true := by
  decide +kernel

theorem magnitude?_isSome {point : Int} {exponent : Option (Bool × List Char)} :
    (magnitude? s point exponent).isSome <-> ExponentInRange s point exponent := by
  have hbound : exponentBound = 2 ^ 31 := rfl
  cases exponent with
  | none => exact scale?_isSome
  | some p =>
      rcases p with ⟨negative, digits⟩
      simp only [magnitude?, hbound]
      cases negative with
      | true =>
          split
          · rename_i hlt
            rw [if_pos rfl, scale?_isSome, ExponentInRange]
            exact ⟨Or.inr, fun h => h.resolve_left (Nat.not_le.mpr hlt)⟩
          · rename_i hge
            simp only [Bool.not_true, Bool.false_eq_true, and_false, if_false, Option.isSome_some,
              true_iff]
            exact Or.inl (Nat.le_of_not_lt hge)
      | false =>
          split
          · rename_i hlt
            rw [if_neg Bool.false_ne_true, scale?_isSome, ExponentInRange]
            constructor
            · intro h
              exact Or.inr ⟨hlt, h⟩
            · rintro (hzero | ⟨_, h⟩)
              · exact Or.inr (Or.inl hzero)
              · exact h
          · rename_i hge
            by_cases hs : s = 0
            · subst hs
              exact iff_of_true rfl (Or.inl rfl)
            · rw [if_pos ⟨hs, rfl⟩, Option.isSome_none]
              refine iff_of_false Bool.false_ne_true ?_
              rintro (hzero | ⟨hlt, _⟩)
              · exact hs hzero
              · exact hge hlt

theorem inRange_iff {n : Numeral} :
    n.InRange <-> (magnitude? n.parts.1 n.parts.2 n.exponent).isSome := by
  rw [magnitude?_isSome]
  constructor
  · rintro ⟨whole, left, significand, unread, hwhole, hfraction, hrange⟩
    rw [parts]
    simp only [gather_of_gathered hwhole, gather_of_gathered hfraction]
    exact hrange
  · intro h
    have hwhole := gathered_gather (s := 0) (by decide) n.whole
    exact ⟨_, _, _, _, hwhole, gathered_gather hwhole.lt _, h⟩

theorem lt_infinityBound {n : Nat} (h : n ≤ 2 ^ 65) : n < infinityBound := by
  have hbound : 2 ^ 65 < infinityBound := by decide +kernel
  exact Nat.lt_of_le_of_lt h hbound

theorem inRange_of_integer {negative : Bool} (h : Decimal.ofDigits digits < 2 ^ 64) :
    InRange ⟨negative, digits, none, none⟩ := by
  have hall : Gathered 0 (digits ++ []) (appended 0 digits) 0 :=
    Gathered.mk digits [] h (by simp)
  have hnone : Gathered (appended 0 digits) ([] ++ []) (appended 0 digits) 0 :=
    Gathered.mk [] [] h (by simp)
  rw [List.append_nil] at hall
  refine ⟨_, _, _, _, hall, hnone, Or.inr (Or.inr ⟨by simp, ?_⟩)⟩
  have hone : nearestDouble (10 ^ 0) = 1 := by decide
  have hle := nearestDouble_le (appended 0 digits)
  have hdigits : appended 0 digits < 2 ^ 64 := h
  apply lt_infinityBound
  show _ * nearestDouble (10 ^ 0) ≤ _
  rw [hone]
  lia

/-- A numeral has a value if and only if it is in range. -/
theorem value?_isSome {n : Numeral} : n.value?.isSome <-> n.InRange := by
  rcases n with ⟨negative, whole, fraction, exponent⟩
  rw [value?]
  simp only
  split
  · rename_i hinteger
    simp only [Bool.and_eq_true, Option.isNone_iff_eq_none, decide_eq_true_eq] at hinteger
    rcases hinteger with ⟨⟨⟨rfl, rfl⟩, _⟩, hlt⟩
    exact iff_of_true rfl (inRange_of_integer hlt)
  split
  · rename_i hinteger
    simp only [Bool.and_eq_true, Option.isNone_iff_eq_none, decide_eq_true_eq] at hinteger
    rcases hinteger with ⟨⟨⟨⟨rfl, rfl⟩, _⟩, _⟩, hle⟩
    have hlt : Decimal.ofDigits whole < 2 ^ 64 := Nat.lt_of_le_of_lt hle (by decide)
    exact iff_of_true rfl (inRange_of_integer hlt)
  · rw [Option.isSome_map, inRange_iff]

end Numeral

/-!
## Documents within the limits
-/

namespace JsonTree

variable {depth : Nat} {tree : JsonTree}

/-- A tree with at most `depth` lists and objects around a scalar, and with numbers in range. -/
inductive Within : (depth : Nat) -> JsonTree -> Prop where
  | null {depth : Nat} : Within depth .null
  | bool {depth : Nat} (value : Bool) : Within depth (.bool value)
  | number {depth : Nat} {numeral : Numeral} : numeral.InRange -> Within depth (.number numeral)
  | text {depth : Nat} (value : String) : Within depth (.text value)
  | list {depth : Nat} {items : List JsonTree} :
      (forall item, item ∈ items -> Within depth item) -> Within (depth + 1) (.list items)
  | object {depth : Nat} {members : List (String × JsonTree)} :
      (forall m, m ∈ members -> Within depth m.2) -> Within (depth + 1) (.object members)

theorem mapM_isSome {alpha beta : Type} {f : alpha -> Option beta} {xs : List alpha} :
    (xs.mapM f).isSome <-> forall x, x ∈ xs -> (f x).isSome := by
  induction xs with
  | nil => simp
  | cons x xs ih =>
      rw [List.forall_mem_cons, ← ih, List.mapM_cons]
      cases f x with
      | none => simp
      | some y =>
          cases xs.mapM f with
          | none => simp
          | some ys => simp

/-- A tree has a value if and only if it is within the limits. -/
theorem value?_isSome : (tree.value? depth).isSome <-> tree.Within depth := by
  induction depth using Nat.strongRecOn generalizing tree with
  | _ depth ih =>
      cases tree with
      | null => exact iff_of_true (by rw [value?]; rfl) Within.null
      | bool value => exact iff_of_true (by rw [value?]; rfl) (Within.bool value)
      | text value => exact iff_of_true (by rw [value?]; rfl) (Within.text value)
      | number numeral =>
          rw [value?, Numeral.value?_isSome]
          constructor
          · exact Within.number
          · intro h
            cases h with
            | number hrange => exact hrange
      | list items =>
          cases depth with
          | zero =>
              refine iff_of_false (by simp [value?]) ?_
              intro h
              cases h
          | succ depth =>
              rw [value?, Option.isSome_map, mapM_isSome]
              simp only [ih depth (Nat.lt_succ_self depth)]
              constructor
              · exact Within.list
              · intro h
                cases h with
                | list hitems => exact hitems
      | object members =>
          cases depth with
          | zero =>
              refine iff_of_false (by simp [value?]) ?_
              intro h
              cases h
          | succ depth =>
              rw [value?, Option.isSome_map, mapM_isSome]
              simp only [Option.isSome_map, ih depth (Nat.lt_succ_self depth)]
              constructor
              · exact Within.object
              · intro h
                cases h with
                | object hmembers => exact hmembers

end JsonTree
end LoopNest
