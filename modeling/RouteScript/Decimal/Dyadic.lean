/-!
# Doubles as exact fractions

A finite double is a sign, a whole number and a power of two. Rounding a quotient to a whole number
and a positive fraction to a double are done in exact arithmetic.
-/

namespace RouteScript.Decimal

structure Dyadic where
  negative : Bool
  mantissa : Nat
  exponent : Int

/-- What the bits of a double stand for. -/
inductive Reading where
  | nan
  | infinite (negative : Bool)
  | finite (value : Dyadic)

def read (x : Float) : Reading :=
  let bits := x.toBits.toNat
  let negative := bits / Nat.pow 2 63 == 1
  let biased : Nat := bits / Nat.pow 2 52 % Nat.pow 2 11
  let fraction : Nat := bits % Nat.pow 2 52
  if biased = 2047 then
    if fraction = 0 then .infinite negative else .nan
  else if biased = 0 then .finite ⟨negative, fraction, -1074⟩
  else .finite ⟨negative, fraction + Nat.pow 2 52, (biased : Int) - 1075⟩

inductive Tie where
  | even
  | up
  deriving DecidableEq

def roundDiv (tie : Tie) (num den : Nat) : Nat :=
  let q := num / den
  let r := num % den
  if 2 * r < den then q
  else if den < 2 * r then q + 1
  else if tie = .up then q + 1
  else if q % 2 = 0 then q else q + 1

def scaleTwo (n : Nat) (e : Int) : Nat × Nat :=
  if 0 ≤ e then (n * Nat.pow 2 e.toNat, 1) else (n, Nat.pow 2 (-e).toNat)

/-- The bits of the double nearest to the positive fraction `num / den`, ties to even; fractions
too large for a finite double give the bits of infinity. -/
def nearestBits (num den : Nat) : Nat :=
  let guess : Int := (num.log2 : Int) - (den.log2 : Int) - 52
  let place (e : Int) : Nat × Nat :=
    if 0 ≤ e then (num, den * Nat.pow 2 e.toNat) else (num * Nat.pow 2 (-e).toNat, den)
  -- the quotient at `guess` has 53 bits or one fewer
  let low := place guess
  let e := if low.1 / low.2 < Nat.pow 2 52 then guess - 1 else guess
  let e := max e (-1074)
  let f := place e
  let q := roundDiv .even f.1 f.2
  min ((e + 1074).toNat * Nat.pow 2 52 + q) (2047 * Nat.pow 2 52)

/-- The double nearest to `± digits · 10 ^ exponent`. Exponents far outside the range of doubles
are decided by size alone. -/
def nearest (negative : Bool) (digits : Nat) (exponent : Int) : Float :=
  let magnitude : Nat :=
    if digits = 0 then 0
    else
      let size := exponent + (Nat.toDigits 10 digits).length
      if 400 < size then 2047 * Nat.pow 2 52
      else if size < -400 then 0
      else if 0 ≤ exponent then nearestBits (digits * Nat.pow 10 exponent.toNat) 1
      else nearestBits digits (Nat.pow 10 (-exponent).toNat)
  Float.ofBits (UInt64.ofNat (magnitude + if negative then Nat.pow 2 63 else 0))

def ofInt64 (n : Int64) : Float :=
  if n < 0 then -(-n).toUInt64.toFloat else n.toUInt64.toFloat

end RouteScript.Decimal
