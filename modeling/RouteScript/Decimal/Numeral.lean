import RouteScript.Text.Ascii
import RouteScript.Decimal.Dyadic

/-!
# Reading numbers

Whole numbers of 64 bits and doubles are read from their decimal spellings. A spelling is read as a
whole: a sign, then digits, with nothing before or after.
-/

namespace RouteScript.Decimal

open Text

def splitSign : List Char → Bool × List Char
  | '-' :: rest => (true, rest)
  | '+' :: rest => (false, rest)
  | l => (false, l)

def fitsInt64 (n : Int) : Bool :=
  Int64.minValue.toInt ≤ n && n ≤ Int64.maxValue.toInt

def int64? (l : List Char) : Option Int64 :=
  let (negative, digits) := splitSign l
  if digits ≠ [] ∧ digits.all isDigit then
    let n : Int := decimalValue digits
    let n := if negative then -n else n
    if fitsInt64 n then some (Int64.ofInt n) else none
  else none

/-- The exponent part of a spelling, from its `e` on; an absent one is zero. -/
def exponentPart? : List Char → Option Int
  | [] => some 0
  | c :: rest =>
    if c = 'e' ∨ c = 'E' then
      let (negative, digits) := splitSign rest
      if digits ≠ [] ∧ digits.all isDigit then
        some (if negative then -(decimalValue digits : Int) else decimalValue digits)
      else none
    else none

/-- The digits after a decimal point, if there is one, and what follows them. -/
def splitPlaces : List Char → List Char × List Char
  | '.' :: rest => (rest.takeWhile isDigit, rest.dropWhile isDigit)
  | l => ([], l)

/-- A double in decimal notation, or one of the names of infinity and not-a-number in any case. -/
def float? (l : List Char) : Option Float :=
  let (negative, body) := splitSign l
  let name := String.ofList (body.map Char.toLower)
  if name = "inf" ∨ name = "infinity" then
    some (Float.ofBits (if negative then 0xFFF0000000000000 else 0x7FF0000000000000))
  else if name = "nan" then
    some (Float.ofBits (if negative then 0xFFF8000000000000 else 0x7FF8000000000000))
  else
    let whole := body.takeWhile isDigit
    let (places, rest) := splitPlaces (body.dropWhile isDigit)
    if whole = [] ∧ places = [] then none
    else
      (exponentPart? rest).map fun e =>
        nearest negative (decimalValue (whole ++ places)) (e - places.length)

end RouteScript.Decimal
