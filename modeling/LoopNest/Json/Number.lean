import LoopNest.Decimal
import LoopNest.Json.Value
import LoopNest.Text.Basic

/-!
# JSON numbers

A number is read into a numeral, which keeps the digits as they are written, and then
valued.  The digits of a numeral that is not a plain integer are gathered into a 64-bit
significand as long as they fit; the rest only moves the point.
-/

namespace LoopNest

structure Numeral where
  negative : Bool
  whole : List Char
  fraction : Option (List Char)
  exponent : Option (Bool × List Char)
  deriving DecidableEq, Repr

namespace Numeral

/-!
## Reading
-/

def readDigits : List Char -> Except JsonStop (List Char × List Char)
  | [] => .error (JsonFault.endOfValue.before [])
  | c :: rest =>
      if c.isDigit then .ok (c :: rest.takeWhile Char.isDigit, rest.dropWhile Char.isDigit)
      else .error (JsonFault.invalidNumber.on (c :: rest))

/-- The digits before the point.  A leading zero stands alone. -/
def readWhole (cs : List Char) : Except JsonStop (List Char × List Char) :=
  match cs with
  | '0' :: c :: rest =>
      if c.isDigit then .error (JsonFault.invalidNumber.on (c :: rest))
      else .ok (['0'], c :: rest)
  | _ => readDigits cs

def readFraction (cs : List Char) : Except JsonStop (Option (List Char) × List Char) :=
  match cs with
  | '.' :: rest => do
      let (digits, rest) <- readDigits rest
      return (some digits, rest)
  | _ => .ok (none, cs)

/-- The sign in front of an exponent: is it negative, and what follows? -/
def exponentSign : List Char -> Bool × List Char
  | '+' :: rest => (false, rest)
  | '-' :: rest => (true, rest)
  | rest => (false, rest)

def readExponent (cs : List Char) :
    Except JsonStop (Option (Bool × List Char) × List Char) :=
  match cs with
  | [] => .ok (none, [])
  | c :: rest =>
      if c = 'e' ∨ c = 'E' then do
        let (digits, final) <- readDigits (exponentSign rest).2
        return (some ((exponentSign rest).1, digits), final)
      else .ok (none, c :: rest)

def readUnsigned (negative : Bool) (cs : List Char) :
    Except JsonStop (Numeral × List Char) := do
  let (whole, rest) <- readWhole cs
  let (fraction, rest) <- readFraction rest
  let (exponent, rest) <- readExponent rest
  return (⟨negative, whole, fraction, exponent⟩, rest)

theorem readDigits_length_lt {cs rest digits : List Char}
    (h : readDigits cs = .ok (digits, rest)) : rest.length < cs.length := by
  cases cs with
  | nil => simp [readDigits] at h
  | cons c front =>
      rw [readDigits] at h
      split at h
      · simp only [Except.ok.injEq, Prod.mk.injEq] at h
        have hle := (List.dropWhile_sublist (l := front) Char.isDigit).length_le
        rw [h.2] at hle
        rw [List.length_cons]
        omega
      · simp at h

theorem readWhole_length_lt {cs rest digits : List Char}
    (h : readWhole cs = .ok (digits, rest)) : rest.length < cs.length := by
  unfold readWhole at h
  split at h
  · split at h
    · simp at h
    · simp only [Except.ok.injEq, Prod.mk.injEq] at h
      rw [← h.2]
      simp
  · exact readDigits_length_lt h

theorem readFraction_length_le {cs rest : List Char} {digits : Option (List Char)}
    (h : readFraction cs = .ok (digits, rest)) : rest.length ≤ cs.length := by
  unfold readFraction at h
  split at h
  · simp only [bind_eq_ok] at h
    obtain ⟨⟨run, final⟩, hrun, h⟩ := h
    have hlt := readDigits_length_lt hrun
    cases h
    rw [List.length_cons]
    simp only
    omega
  · cases h
    exact Nat.le_refl _

theorem exponentSign_length_le (cs : List Char) : (exponentSign cs).2.length ≤ cs.length := by
  unfold exponentSign
  split
  all_goals simp

theorem readExponent_length_le {cs rest : List Char} {e : Option (Bool × List Char)}
    (h : readExponent cs = .ok (e, rest)) : rest.length ≤ cs.length := by
  cases cs with
  | nil =>
      cases h
      exact Nat.le_refl _
  | cons c front =>
      rw [readExponent] at h
      split at h
      · simp only [bind_eq_ok] at h
        obtain ⟨⟨run, final⟩, hrun, h⟩ := h
        have hsign := exponentSign_length_le front
        have hlt := readDigits_length_lt hrun
        cases h
        rw [List.length_cons]
        simp only
        omega
      · cases h
        exact Nat.le_refl _

theorem readUnsigned_length_lt {negative : Bool} {cs rest : List Char} {n : Numeral}
    (h : readUnsigned negative cs = .ok (n, rest)) : rest.length < cs.length := by
  simp only [readUnsigned, bind_eq_ok] at h
  obtain ⟨⟨whole, afterWhole⟩, hwhole, ⟨fraction, afterFraction⟩, hfraction,
    ⟨exponent, afterExponent⟩, hexponent, h⟩ := h
  have h1 := readWhole_length_lt hwhole
  have h2 := readFraction_length_le hfraction
  have h3 := readExponent_length_le hexponent
  cases h
  simp only at h2 h3 ⊢
  omega

/-!
## Valuing
-/

/-- The bound of 64-bit significands. -/
def significandBound : Nat := Nat.pow 2 64

/-- Appends digits to a significand while they fit.  The answer is the significand and the
number of digits that were left out. -/
def gather (significand : Nat) : List Char -> Nat × Nat
  | [] => (significand, 0)
  | c :: digits =>
      let next := 10 * significand + Decimal.digitValue c
      if next < significandBound then gather next digits
      else (significand, digits.length + 1)

/-- The significand and the power of ten that come from the digits around the point. -/
def parts (n : Numeral) : Nat × Int :=
  let (whole, left) := gather 0 n.whole
  let fraction := n.fraction.getD []
  let (significand, unread) := gather whole fraction
  (significand, (left : Int) - ((fraction.length - unread : Nat) : Int))

/-- The powers of ten up to this one are finite doubles. -/
def greatestPower : Nat := 308

/-- The number of at most 53 binary digits that is nearest to a number; of two that are equally
near, the even one. -/
def nearestDouble (n : Nat) : Nat :=
  let unit := Nat.pow 2 (n.log2 - 52)
  let count := n / unit
  let rest := n % unit
  if unit < 2 * rest ∨ (unit = 2 * rest ∧ count % 2 = 1) then (count + 1) * unit
  else count * unit

/-- Numbers from here on are nearer to the next power of two than to the greatest double. -/
def infinityBound : Nat :=
  Nat.pow 2 1024 - Nat.pow 2 970

/-- Is the product of a significand and a power of ten finite?  Both are rounded before. -/
def isFinite (significand k : Nat) : Bool :=
  decide (k ≤ greatestPower)
    && decide (nearestDouble significand * nearestDouble (Nat.pow 10 k) < infinityBound)

def powerOfTen (k : Nat) : Float :=
  Float.ofScientific 1 false k

/-- Divides by a power of ten, at most by the greatest one at a time. -/
def divide (x : Float) (k : Nat) : Float :=
  if _hk : k ≤ greatestPower then x / powerOfTen k
  else if x == 0.0 then x
  else divide (x / powerOfTen greatestPower) (k - greatestPower)
termination_by k
decreasing_by
  simp only [greatestPower] at _hk ⊢
  omega

def scale? (significand : Nat) (k : Int) : Option Float :=
  let x := Float.ofNat significand
  if k < 0 then some (divide x (-k).toNat)
  else if significand = 0 then some x
  else if isFinite significand k.toNat then some (x * powerOfTen k.toNat)
  else none

/-- The bound of the exponents that are looked at. -/
def exponentBound : Nat := Nat.pow 2 31

/-- The double of a significand with a written exponent, if it is finite. -/
def magnitude? (significand : Nat) (point : Int) : Option (Bool × List Char) -> Option Float
  | none => scale? significand point
  | some (negative, digits) =>
      let exponent := Decimal.ofDigits digits
      if exponent < exponentBound then
        scale? significand (if negative then point - exponent else point + exponent)
      else if significand ≠ 0 ∧ !negative then none
      else some 0.0

/-- How many of the digits come behind the first one that makes the number too large for an
exponent, where `seen` is the value of the digits before them. -/
def unreadDigits (seen : Nat) : List Char -> Nat
  | [] => 0
  | c :: digits =>
      let next := 10 * seen + Decimal.digitValue c
      if exponentBound ≤ next then digits.length else unreadDigits next digits

/-- How many characters of a numeral that is too large are not looked at. -/
def unread (n : Numeral) : Nat :=
  match n.exponent with
  | none => 0
  | some (_, digits) => unreadDigits 0 digits

/-- The value of a numeral; none if it is too large.  Integers that fit 64 bits are kept,
except for minus zero. -/
def value? (n : Numeral) : Option JsonValue :=
  let whole := Decimal.ofDigits n.whole
  let isInteger := n.fraction.isNone && n.exponent.isNone
  if isInteger && !n.negative && decide (whole < significandBound) then
    some (.integer whole)
  else if isInteger && n.negative && decide (0 < whole) && decide (whole ≤ Nat.pow 2 63) then
    some (.integer (-(whole : Int)))
  else
    let (significand, point) := n.parts
    (magnitude? significand point n.exponent).map fun x =>
      .double (if n.negative then -x else x)

end Numeral
end LoopNest
