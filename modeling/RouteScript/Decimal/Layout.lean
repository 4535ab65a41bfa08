import RouteScript.Decimal.Shortest

/-!
# Written forms of doubles

A layout says how the shortest decimal of a double is set out: where positional notation ends, and
how an exponent is written. Fixed places are a form of their own, rounded from the exact value.
-/

namespace RouteScript.Decimal

structure Layout where
  /-- Which of two equally near decimals is taken. -/
  tie : Tie
  /-- Least decimal exponent of the leading digit that is written positionally. -/
  least : Int
  /-- Least decimal exponent above `least` that is written with an exponent again. -/
  beyond : Int
  /-- Whole numbers in positional form end in `.0`. -/
  pointZero : Bool
  /-- A positive exponent has a plus sign. -/
  plus : Bool

def Layout.plain : Layout := ⟨.up, -100000, 100000, false, false⟩

/-- Numbers in structural dumps: positional from `1e-4` up to `1e16`. -/
def Layout.dump : Layout := ⟨.up, -4, 16, true, false⟩

/-- Numbers in interchange documents: positional from `1e-5` up to `1e16`, signed exponents. -/
def Layout.interchange : Layout := ⟨.even, -5, 16, true, true⟩

def zeros (n : Nat) : String := String.ofList (List.replicate n '0')

/-- Write `digits` with the decimal point after the first `point` of them. -/
def positional (digits : List Char) (point : Int) (pointZero : Bool) : String :=
  if point ≤ 0 then "0." ++ zeros (-point).toNat ++ String.ofList digits
  else if digits.length ≤ point.toNat then
    String.ofList digits ++ zeros (point.toNat - digits.length) ++ if pointZero then ".0" else ""
  else String.ofList (digits.take point.toNat) ++ "." ++ String.ofList (digits.drop point.toNat)

def exponential (digits : List Char) (exponent : Int) (plus : Bool) : String :=
  let mark := if plus && 0 ≤ exponent then "e+" else "e"
  String.ofList (digits.take 1) ++
    (if digits.length ≤ 1 then "" else "." ++ String.ofList (digits.drop 1)) ++
    mark ++ toString exponent

def Layout.write (layout : Layout) (s : Scientific) : String :=
  let digits := Nat.toDigits 10 s.digits
  let leading := s.exponent + digits.length - 1
  if s.digits = 0 then if layout.pointZero then "0.0" else "0"
  else if layout.least ≤ leading ∧ leading < layout.beyond then
    positional digits (leading + 1) layout.pointZero
  else exponential digits leading layout.plus

def sign (negative : Bool) : String := if negative then "-" else ""

def Layout.render (layout : Layout) (x : Float) : String :=
  match read x with
  | .nan => "NaN"
  | .infinite negative => sign negative ++ "inf"
  | .finite d => sign d.negative ++ layout.write (shortest layout.tie d.mantissa d.exponent)

/-- Write a double with a fixed number of places after the point, rounded from its exact value with
ties to even. -/
def fixed (places : Nat) (x : Float) : String :=
  match read x with
  | .nan => "NaN"
  | .infinite negative => sign negative ++ "inf"
  | .finite d =>
    let (num, den) := scaleTwo d.mantissa d.exponent
    let units := roundDiv .even (num * Nat.pow 10 places) den
    let digits := Nat.toDigits 10 units
    let padded := List.replicate (places + 1 - digits.length) '0' ++ digits
    let whole := padded.length - places
    sign d.negative ++ String.ofList (padded.take whole) ++
      if places = 0 then "" else "." ++ String.ofList (padded.drop whole)

end RouteScript.Decimal
