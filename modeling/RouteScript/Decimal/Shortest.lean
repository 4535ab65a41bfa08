import RouteScript.Decimal.Dyadic

/-!
# Shortest decimals

The shortest decimal of a positive double has the fewest digits among those that are read back as
the same double, and is the nearest of them to the double's exact value.

A double `m · 2 ^ q` is read back from every number between the midpoints to its two neighbours,
the midpoints included when `m` is even. A grid of decimals with a given number of digits has a
point in that interval only if one of the two grid points around the value is in it.
-/

namespace RouteScript.Decimal

structure Scientific where
  digits : Nat
  exponent : Int

/-- Take trailing zeros off the digits; `fuel` bounds their number. -/
def Scientific.trimmed : Nat → Scientific → Scientific
  | 0, s => s
  | fuel + 1, s =>
    if s.digits ≠ 0 ∧ s.digits % 10 = 0 then
      Scientific.trimmed fuel ⟨s.digits / 10, s.exponent + 1⟩
    else s

/-- The numbers that are read back as one double, all over a common denominator. -/
structure Interval where
  low : Nat
  value : Nat
  high : Nat
  den : Nat
  closed : Bool

/-- The interval of a positive double. The gap below a power of two is half as wide. -/
def Interval.of (mantissa : Nat) (exponent : Int) : Interval :=
  let below := if mantissa = Nat.pow 2 52 ∧ exponent ≠ -1074 then 1 else 2
  let scaled (n : Nat) : Nat := (scaleTwo n (exponent - 2)).1
  { low := scaled (4 * mantissa - below)
    value := scaled (4 * mantissa)
    high := scaled (4 * mantissa + 2)
    den := (scaleTwo 1 (exponent - 2)).2
    closed := mantissa % 2 = 0 }

def Interval.holds (i : Interval) (n : Nat) (exponent : Int) : Bool :=
  let (point, low, high) :=
    if 0 ≤ exponent then (n * Nat.pow 10 exponent.toNat * i.den, i.low, i.high)
    else
      let unit := Nat.pow 10 (-exponent).toNat
      (n * i.den, i.low * unit, i.high * unit)
  if i.closed then low ≤ point && point ≤ high else low < point && point < high

def Interval.units (i : Interval) (exponent : Int) : Nat × Nat :=
  if 0 ≤ exponent then (i.value, i.den * Nat.pow 10 exponent.toNat)
  else (i.value * Nat.pow 10 (-exponent).toNat, i.den)

/-- The point of the interval on the grid of step `10 ^ exponent` that is nearest to the value. -/
def Interval.onGrid? (i : Interval) (tie : Tie) (exponent : Int) : Option Nat :=
  let (num, den) := i.units exponent
  let near := roundDiv tie num den
  let far := if near = num / den then near + 1 else num / den
  if i.holds near exponent then some near
  else if i.holds far exponent then some far
  else none

/-- Try grids of decreasing step until one has a point in the interval; `fuel` bounds the tries. -/
def Interval.search (i : Interval) (tie : Tie) : Nat → Int → Scientific
  | 0, exponent => ⟨roundDiv tie (i.units exponent).1 (i.units exponent).2, exponent⟩
  | fuel + 1, exponent =>
    match i.onGrid? tie exponent with
    | some n => ⟨n, exponent⟩
    | none => i.search tie fuel (exponent - 1)

/-- An exponent whose power of ten is above the value: `2 ^ b` has at most `b · 30103 / 100000 + 1`
digits. -/
def Interval.start (i : Interval) : Int :=
  let bits : Int := (i.value.log2 : Int) - i.den.log2 + 1
  bits * 30103 / 100000 + 1

def shortest (tie : Tie) (mantissa : Nat) (exponent : Int) : Scientific :=
  if mantissa = 0 then ⟨0, 0⟩
  else
    let i := Interval.of mantissa exponent
    (i.search tie 24 i.start).trimmed 400

end RouteScript.Decimal
