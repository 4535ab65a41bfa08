import RouteScript.Decimal.Numeral
import RouteScript.Json.Basic

/-!
# Numbers in documents

A number is written with at least one digit before the point and behind it, and without needless
leading zeros. Its digits are gathered into a word of 64 bits as long as they fit; the digits that
do not fit only shift the decimal exponent. The word is then scaled by one power of ten.
-/

namespace RouteScript.Json

open Text

def maxWord : Nat := UInt64.size - 1

/-- Gather digits into `word` while they fit; the rest is returned. -/
def gather (word : Nat) : List Char → Nat × List Char
  | [] => (word, [])
  | c :: rest =>
    if maxWord < 10 * word + digitValue c then (word, c :: rest)
    else gather (10 * word + digitValue c) rest

/-- Scale a word by a power of ten in double arithmetic. Scales beyond the range of doubles are
applied in two or more parts; a result that is not finite is refused. -/
def scaled? : Nat → Float → Int → Option Float
  | 0, _, _ => none
  | fuel + 1, x, exponent =>
    if exponent.natAbs ≤ 308 then
      let power := Decimal.nearest false 1 exponent.natAbs
      if 0 ≤ exponent then
        if (x * power).isFinite then some (x * power) else none
      else some (x / power)
    else if x == 0 then some x
    else if 0 ≤ exponent then none
    else scaled? fuel (x / Decimal.nearest false 1 308) (exponent + 308)

/-- The double with the given digits and exponent. Below `1e-700` every word is scaled to zero. -/
def double? (negative : Bool) (word : Nat) (exponent : Int) : Option Float :=
  (scaled? 4 (UInt64.ofNat word).toFloat (max exponent (-1000))).map fun x =>
    if negative then -x else x

/-- The exponent behind an `e`, and what follows it. An absent one is zero. -/
def exponent? (l : List Char) : Option (Int × List Char) :=
  match l with
  | c :: rest =>
    if c = 'e' ∨ c = 'E' then
      let (negative, digits) := Decimal.splitSign rest
      match digits.takeWhile isDigit with
      | [] => none
      | ds =>
        let n : Int := decimalValue ds
        some (if negative then -n else n, digits.dropWhile isDigit)
    else some (0, l)
  | [] => some (0, [])

/-- The digits before the point: a zero alone, or digits that do not start with one. -/
def whole? (l : List Char) : Option (List Char × List Char) :=
  match l with
  | '0' :: rest =>
    match rest with
    | c :: _ => if isDigit c then none else some (['0'], rest)
    | [] => some (['0'], [])
  | _ =>
    match l.takeWhile isDigit with
    | [] => none
    | ds => some (ds, l.dropWhile isDigit)

/-- A whole number: one that fits into 64 bits with its sign, or else the nearest double. Minus
zero has no whole form. -/
def ofWhole (negative : Bool) (word : Nat) : Json :=
  if negative then
    if word = 0 ∨ Nat.pow 2 63 < word then .float (-(UInt64.ofNat word).toFloat)
    else .int (Int64.ofInt (-(word : Int)))
  else if word < Nat.pow 2 63 then .int (Int64.ofNat word)
  else .float (UInt64.ofNat word).toFloat

def unsigned? (negative : Bool) (l : List Char) : Option (Json × List Char) := do
  let (digits, rest) ← whole? l
  let (word, left) := gather 0 digits
  let plain (rest : List Char) : Option (Json × List Char) := do
    let (e, after) ← exponent? rest
    if rest.length = after.length ∧ left = [] then return (ofWhole negative word, after)
    else
      let x ← double? negative word (e + left.length)
      return (.float x, after)
  match rest with
  | '.' :: behind =>
    match behind.takeWhile isDigit with
    | [] => none
    | places =>
      let (word, ignored) := gather word places
      let (e, after) ← exponent? (behind.dropWhile isDigit)
      let shift : Int := left.length - (places.length - ignored.length : Nat)
      let x ← double? negative word (e + shift)
      return (.float x, after)
  | _ => plain rest

def number? (l : List Char) : Option (Json × List Char) :=
  match l with
  | '-' :: rest => unsigned? true rest
  | _ => unsigned? false l

end RouteScript.Json
