import RouteScript.Json.Number

/-!
# Reading documents

A document is read as a whole, with blanks allowed between its parts. Arrays and objects may be
nested 127 deep. Of several entries for one key the last one counts.
-/

namespace RouteScript.Json

open Text

def isSpace (c : Char) : Bool := c == ' ' || c == '\n' || c == '\t' || c == '\r'

def skipSpace (l : List Char) : List Char := l.dropWhile isSpace

def hexValue? (c : Char) : Option Nat :=
  if isDigit c then some (digitValue c)
  else if 'a' ≤ c ∧ c ≤ 'f' then some (c.toNat - 'a'.toNat + 10)
  else if 'A' ≤ c ∧ c ≤ 'F' then some (c.toNat - 'A'.toNat + 10)
  else none

def unit? : List Char → Option (Nat × List Char)
  | a :: b :: c :: d :: rest => do
    let high := 16 * (← hexValue? a) + (← hexValue? b)
    let low := 16 * (← hexValue? c) + (← hexValue? d)
    return (256 * high + low, rest)
  | _ => none

/-- The character of a `u` escape. Characters outside the first plane are written as two units, and
half of such a pair stands for nothing. -/
def unicode? (l : List Char) : Option (Char × List Char) := do
  let (n, rest) ← unit? l
  if 0xD800 ≤ n ∧ n < 0xDC00 then
    match rest with
    | '\\' :: 'u' :: rest =>
      let (m, rest) ← unit? rest
      if 0xDC00 ≤ m ∧ m < 0xE000 then
        return (Char.ofNat (0x10000 + (n - 0xD800) * 0x400 + (m - 0xDC00)), rest)
      else none
    | _ => none
  else if 0xDC00 ≤ n ∧ n < 0xE000 then none
  else return (Char.ofNat n, rest)

def simpleEscape? : Char → Option Char
  | '"' => some '"'
  | '\\' => some '\\'
  | '/' => some '/'
  | 'b' => some (Char.ofNat 8)
  | 'f' => some (Char.ofNat 12)
  | 'n' => some '\n'
  | 'r' => some '\r'
  | 't' => some '\t'
  | _ => none

/-- The rest of a text behind its opening quote; `found` holds its characters backwards and `fuel`
bounds their number. -/
def textRest? : Nat → List Char → List Char → Option (String × List Char)
  | 0, _, _ => none
  | fuel + 1, found, l =>
    match l with
    | [] => none
    | '"' :: rest => some (String.ofList found.reverse, rest)
    | '\\' :: 'u' :: rest =>
      match unicode? rest with
      | some (c, rest) => textRest? fuel (c :: found) rest
      | none => none
    | '\\' :: c :: rest =>
      match simpleEscape? c with
      | some c => textRest? fuel (c :: found) rest
      | none => none
    | c :: rest => if c = '\\' ∨ c.toNat < 32 then none else textRest? fuel (c :: found) rest

def text? : List Char → Option (String × List Char)
  | '"' :: rest => textRest? (rest.length + 1) [] rest
  | _ => none

def items? (value : List Char → Option (Json × List Char)) :
    Nat → List Json → List Char → Option (List Json × List Char)
  | 0, _, _ => none
  | fuel + 1, found, l => do
    let (item, rest) ← value l
    match skipSpace rest with
    | ']' :: rest => return ((item :: found).reverse, rest)
    | ',' :: rest => items? value fuel (item :: found) rest
    | _ => none

def entries? (value : List Char → Option (Json × List Char)) :
    Nat → Dict Json → List Char → Option (Dict Json × List Char)
  | 0, _, _ => none
  | fuel + 1, found, l => do
    let (key, rest) ← text? (skipSpace l)
    match skipSpace rest with
    | ':' :: rest =>
      let (item, rest) ← value rest
      let found := Dict.insert key item found
      match skipSpace rest with
      | '\x7d' :: rest => return (found, rest)
      | ',' :: rest => entries? value fuel found rest
      | _ => none
    | _ => none

def word? (word : List Char) (result : Json) (l : List Char) : Option (Json × List Char) :=
  if word.isPrefixOf l then some (result, l.drop word.length) else none

def value? : Nat → List Char → Option (Json × List Char)
  | depth, l =>
    match skipSpace l with
    | [] => none
    | c :: rest =>
      match c with
      | 'n' => word? ['n', 'u', 'l', 'l'] .null (c :: rest)
      | 't' => word? ['t', 'r', 'u', 'e'] (.bool true) (c :: rest)
      | 'f' => word? ['f', 'a', 'l', 's', 'e'] (.bool false) (c :: rest)
      | '"' => (text? (c :: rest)).map fun (s, rest) => (.text s, rest)
      | '[' =>
        match depth, skipSpace rest with
        | 0, _ => none
        | _ + 1, ']' :: rest => some (.array [], rest)
        | depth + 1, inner =>
          (items? (value? depth) (inner.length + 1) [] inner).map fun (xs, rest) =>
            (.array xs, rest)
      | '\x7b' =>
        match depth, skipSpace rest with
        | 0, _ => none
        | _ + 1, '\x7d' :: rest => some (.object [], rest)
        | depth + 1, inner =>
          (entries? (value? depth) (inner.length + 1) [] inner).map fun (xs, rest) =>
            (.object xs, rest)
      | _ => number? (c :: rest)

def maxDepth : Nat := 127

def read? (s : String) : Option Json :=
  match value? maxDepth s.toList with
  | some (value, rest) => if (skipSpace rest).isEmpty then some value else none
  | none => none

end RouteScript.Json
