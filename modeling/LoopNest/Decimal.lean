/-!
# Decimals

Runs of decimal digits, the shortest decimal of a double, and its text.
-/

namespace LoopNest
namespace Decimal

/-!
## Decimal digits

The number that a run of decimal digits stands for.
-/

def digitValue (c : Char) : Nat :=
  c.toNat - '0'.toNat

/-- The number written by a list of decimal digits, most significant digit first. -/
def ofDigits (digits : List Char) : Nat :=
  digits.foldl (fun value c => 10 * value + digitValue c) 0

theorem ofDigits_toDigits (n : Nat) : ofDigits (Nat.toDigits 10 n) = n :=
  Nat.ofDigitChars_toDigits (by decide) (by decide)

/-!
## Shortest decimals

A binary number stands for every real that rounds to it.  Its shortest decimal is the one
with the fewest digits among these reals, and of those the nearest to the number.  For one
digit, two digits and so on it is enough to test the two neighbours of the number on the
grid of decimals with so many digits.
-/

/-- The reals that round to a number: fractions with the denominator `unit`.  The bounds
belong to them if `closed`. -/
structure Rounding where
  low : Nat
  value : Nat
  high : Nat
  unit : Nat
  closed : Bool

/-- A positive decimal: `digits` is read with the point after its first digit, times ten to
the power `exponent`. -/
structure Scientific where
  digits : List Char
  exponent : Int

/-- The power of ten of the leading digit of `value / unit`, where `value` is positive. -/
def leadingExponent (value unit : Nat) : Int :=
  if unit ≤ value then
    ((Nat.toDigits 10 (value / unit)).length : Int) - 1
  else
    match (List.range 400).find? (fun k => unit ≤ value * Nat.pow 10 k) with
    | none => 0
    | some k => -(k : Int)

/-- The two sides of a comparison of `count` times ten to the power `k` with a multiple of
the unit, without fractions. -/
def scaled (r : Rounding) (count : Nat) (k : Int) (bound : Nat) : Nat × Nat :=
  if 0 ≤ k then (count * Nat.pow 10 k.toNat * r.unit, bound)
  else (count * r.unit, bound * Nat.pow 10 (-k).toNat)

/-- Does `count` times ten to the power `k` round to the number? -/
def holds (r : Rounding) (count : Nat) (k : Int) : Bool :=
  let (x, low) := scaled r count k r.low
  let (y, high) := scaled r count k r.high
  if r.closed then decide (low ≤ x) && decide (y ≤ high)
  else decide (low < x) && decide (y < high)

/-- How far `count` times ten to the power `k` lies from the number, on a scale that depends
on `k` only. -/
def distance (r : Rounding) (count : Nat) (k : Int) : Nat :=
  let (x, value) := scaled r count k r.value
  (x - value) + (value - x)

/-- The greatest `count` such that `count` times ten to the power `k` is at most the number. -/
def countBelow (r : Rounding) (k : Int) : Nat :=
  if 0 ≤ k then r.value / (r.unit * Nat.pow 10 k.toNat)
  else r.value * Nat.pow 10 (-k).toNat / r.unit

/-- The nearest decimal on the grid of step ten to the power `k` that rounds to the number.
A tie goes to the even neighbour. -/
def onGrid? (r : Rounding) (k : Int) : Option Nat :=
  let below := countBelow r k
  let above := below + 1
  match holds r below k, holds r above k with
  | false, false => none
  | true, false => some below
  | false, true => some above
  | true, true =>
      if distance r below k < distance r above k then some below
      else if distance r above k < distance r below k then some above
      else if below % 2 = 0 then some below
      else some above

def ofCount (count : Nat) (k : Int) : Scientific :=
  let digits := Nat.toDigits 10 count
  let kept := (digits.reverse.dropWhile (· == '0')).reverse
  ⟨if kept.isEmpty then ['0'] else kept, k + (digits.length : Int) - 1⟩

/-- The shortest decimal of a number.  Seventeen digits always suffice for a double. -/
def shortest (r : Rounding) : Scientific :=
  let lead := leadingExponent r.value r.unit
  let grids := (List.range 17).map fun (i : Nat) => lead - (i : Int)
  match grids.findSome? fun k => (onGrid? r k).map fun count => ofCount count k with
  | some decimal => decimal
  | none => ofCount (countBelow r (lead - 16)) (lead - 16)

/-!
### Doubles
-/

/-- The reals that round to `mantissa` times two to the power `exponent`, where `narrow` says
that the next smaller double is only half as far away as the next greater one. -/
def Rounding.ofBinary (mantissa : Nat) (exponent : Int) (narrow : Bool) : Rounding :=
  let gap := if narrow then 1 else 2
  let power := exponent - 2
  let factor := Nat.pow 2 power.toNat
  { low := (4 * mantissa - gap) * factor
    value := 4 * mantissa * factor
    high := (4 * mantissa + 2) * factor
    unit := Nat.pow 2 (-power).toNat
    closed := mantissa % 2 == 0 }

/-- The shortest decimal of the double with the given biased exponent and fraction bits. -/
def ofFields (biased fraction : Nat) : Scientific :=
  if biased = 0 then
    shortest (Rounding.ofBinary fraction (-1074) false)
  else
    shortest (Rounding.ofBinary (Nat.pow 2 52 + fraction) ((biased : Int) - 1075)
      (fraction == 0 && biased != 1))

/-!
## Decimals as text

A double is written with the digits of its shortest decimal.  Numbers of ordinary size are
written positionally and always show a fraction; others have one digit before the point
and an exponent with its sign.
-/

/-- The least power of ten of a leading digit that is written positionally. -/
def leastPositional : Int := -5

/-- The greatest power of ten of a leading digit that is written positionally. -/
def greatestPositional : Int := 15

def positional (d : Scientific) : List Char :=
  if 0 ≤ d.exponent then
    let whole := d.exponent.toNat + 1
    if d.digits.length ≤ whole then
      d.digits ++ List.replicate (whole - d.digits.length) '0' ++ ['.', '0']
    else
      d.digits.take whole ++ ['.'] ++ d.digits.drop whole
  else
    ['0', '.'] ++ List.replicate ((-d.exponent).toNat - 1) '0' ++ d.digits

def exponential (d : Scientific) : List Char :=
  let mantissa :=
    match d.digits with
    | [] => ['0']
    | [c] => [c]
    | c :: cs => c :: '.' :: cs
  let sign := if 0 ≤ d.exponent then '+' else '-'
  mantissa ++ ['e', sign] ++ Nat.toDigits 10 d.exponent.natAbs

def display (d : Scientific) : List Char :=
  if leastPositional ≤ d.exponent ∧ d.exponent ≤ greatestPositional then positional d
  else exponential d

/-- The form of a finite double. -/
def displayFloat (x : Float) : String :=
  let bits := x.toBits.toNat
  let biased := bits / Nat.pow 2 52 % Nat.pow 2 11
  let fraction := bits % Nat.pow 2 52
  let size :=
    if biased = 0 ∧ fraction = 0 then ['0', '.', '0'] else display (ofFields biased fraction)
  String.ofList (if bits / Nat.pow 2 63 = 1 then '-' :: size else size)

end Decimal
end LoopNest
