import RouteScript.Decimal.Numeral
import RouteScript.Text.Ascii
import RouteScript.Toml.Basic

/-!
# Parts of lines in TOML documents

Blanks, comments, keys, texts, numbers and dates. A reader gives what it has read and the rest of
the document.
-/

namespace RouteScript.Toml

open Text

/-! ## Blanks and comments -/

def skipBlanks (l : List Char) : List Char := l.dropWhile fun c => c == ' ' || c == '\t'

def isPlain (c : Char) : Bool := c == '\t' || (32 ≤ c.toNat && c.toNat != 127)

def newline? : List Char → Option (List Char)
  | '\n' :: rest => some rest
  | '\r' :: '\n' :: rest => some rest
  | _ => none

def skipComment (l : List Char) : List Char :=
  if l.head? = some '#' then l.dropWhile isPlain else l

/-- The document behind the rest of a line, which may hold blanks and a comment only. -/
def lineEnd? (l : List Char) : Option (List Char) :=
  match skipComment (skipBlanks l) with
  | [] => some []
  | rest => newline? rest

/-- The document behind blanks, comments and line ends; at most `n` lines are skipped. -/
def skipLines : Nat → List Char → List Char
  | 0, l => l
  | n + 1, l =>
    let rest := skipComment (skipBlanks l)
    match newline? rest with
    | some after => skipLines n after
    | none => rest

/-! ## Texts -/

def hexValue? (c : Char) : Option Nat :=
  if isDigit c then some (digitValue c)
  else if 'a' ≤ c ∧ c ≤ 'f' then some (c.toNat - 'a'.toNat + 10)
  else if 'A' ≤ c ∧ c ≤ 'F' then some (c.toNat - 'A'.toNat + 10)
  else none

def codeChar? (n : Nat) (l : List Char) : Option (Char × List Char) := do
  let digits := l.take n
  let values ← digits.mapM hexValue?
  let code := values.foldl (fun acc d => 16 * acc + d) 0
  if digits.length = n ∧ Nat.isValidChar code then some (Char.ofNat code, l.drop n) else none

def escape? : List Char → Option (Char × List Char)
  | 'b' :: rest => some (Char.ofNat 8, rest)
  | 't' :: rest => some ('\t', rest)
  | 'n' :: rest => some ('\n', rest)
  | 'f' :: rest => some (Char.ofNat 12, rest)
  | 'r' :: rest => some ('\r', rest)
  | '"' :: rest => some ('"', rest)
  | '\\' :: rest => some ('\\', rest)
  | 'u' :: rest => codeChar? 4 rest
  | 'U' :: rest => codeChar? 8 rest
  | _ => none

def basicText? : Nat → List Char → Option (List Char × List Char)
  | 0, _ => none
  | n + 1, l =>
    match l with
    | '"' :: rest => some ([], rest)
    | '\\' :: rest => do
      let (c, rest) ← escape? rest
      let (s, rest) ← basicText? n rest
      some (c :: s, rest)
    | c :: rest =>
      if isPlain c then (basicText? n rest).map fun (s, rest) => (c :: s, rest) else none
    | [] => none

def literalText? : List Char → Option (List Char × List Char)
  | '\'' :: rest => some ([], rest)
  | c :: rest =>
    if isPlain c then (literalText? rest).map fun (s, rest) => (c :: s, rest) else none
  | [] => none

def skipBlankLines : List Char → List Char
  | ' ' :: rest | '\t' :: rest | '\n' :: rest | '\r' :: '\n' :: rest => skipBlankLines rest
  | l => l

/-- The document behind a line end that a backslash takes away, together with the blanks and line
ends that follow. -/
def lineContinuation? (l : List Char) : Option (List Char) :=
  (newline? (skipBlanks l)).map skipBlankLines

/-- The rest of a text of several lines between three quotation marks `q`. The last of up to five
quotation marks in a row end it. -/
def longText? (q : Char) (escapes : Bool) : Nat → List Char → Option (List Char × List Char)
  | 0, _ => none
  | n + 1, l =>
    match l with
    | [] => none
    | c :: rest =>
      if c = q then
        let run := (l.takeWhile (· == q)).length
        if 3 ≤ run then
          let count := min run 5
          some (List.replicate (count - 3) q, l.drop count)
        else
          (longText? q escapes n (l.drop run)).map fun (s, rest) =>
            (List.replicate run q ++ s, rest)
      else if c = '\\' ∧ escapes then
        match lineContinuation? rest with
        | some rest => longText? q escapes n rest
        | none => do
          let (c, rest) ← escape? rest
          let (s, rest) ← longText? q escapes n rest
          some (c :: s, rest)
      else
        match newline? l with
        | some rest => (longText? q escapes n rest).map fun (s, rest) => ('\n' :: s, rest)
        | none =>
          if isPlain c then (longText? q escapes n rest).map fun (s, rest) => (c :: s, rest)
          else none

/-- A text in quotes of any kind. A line end right behind three quotes does not count. -/
def text? (l : List Char) : Option (String × List Char) :=
  let result : Option (List Char × List Char) := match l with
    | '"' :: '"' :: '"' :: rest =>
      longText? '"' true (l.length + 1) ((newline? rest).getD rest)
    | '\'' :: '\'' :: '\'' :: rest =>
      longText? '\'' false (l.length + 1) ((newline? rest).getD rest)
    | '"' :: rest => basicText? (l.length + 1) rest
    | '\'' :: rest => literalText? rest
    | _ => none
  result.map fun (s, rest) => (String.ofList s, rest)

/-! ## Keys -/

def isKeyChar (c : Char) : Bool := isLetter c || isDigit c || c == '_' || c == '-'

def simpleKey? (l : List Char) : Option (String × List Char) :=
  match l with
  | '"' :: rest => (basicText? (l.length + 1) rest).map fun (s, rest) => (String.ofList s, rest)
  | '\'' :: rest => (literalText? rest).map fun (s, rest) => (String.ofList s, rest)
  | _ =>
    match l.takeWhile isKeyChar with
    | [] => none
    | s => some (String.ofList s, l.dropWhile isKeyChar)

def key? : Nat → List Char → Option (List String × List Char)
  | 0, _ => none
  | n + 1, l => do
    let (k, rest) ← simpleKey? (skipBlanks l)
    match skipBlanks rest with
    | '.' :: rest => (key? n rest).map fun (ks, rest) => (k :: ks, rest)
    | rest => some ([k], rest)

/-! ## Numbers -/

def digits? (isDigit : Char → Bool) : List Char → Option (List Char × List Char)
  | c :: '_' :: rest =>
    if isDigit c then
      match digits? isDigit rest with
      | some (ds, rest) => some (c :: ds, rest)
      | none => some ([c], '_' :: rest)
    else none
  | c :: rest =>
    if isDigit c then
      match digits? isDigit rest with
      | some (ds, rest) => some (c :: ds, rest)
      | none => some ([c], rest)
    else none
  | [] => none

/-- The digits of a whole number: a zero alone, or digits that do not start with one. -/
def whole? : List Char → Option (List Char × List Char)
  | '0' :: rest => some (['0'], rest)
  | l => digits? isDigit l

def int? (n : Int) (rest : List Char) : Option (Toml × List Char) :=
  if Decimal.fitsInt64 n then some (.int (Int64.ofInt n), rest) else none

def based? (base : Nat) (l : List Char) : Option (Toml × List Char) := do
  let (ds, rest) ← digits? (fun c => (hexValue? c).any (· < base)) l
  int? (ds.foldl (fun acc c => base * acc + (hexValue? c).getD 0) 0) rest

def sign (l : List Char) : List Char × List Char :=
  match l with
  | '-' :: rest => (['-'], rest)
  | '+' :: rest => (['+'], rest)
  | _ => ([], l)

def exponent? : List Char → Option (List Char × List Char)
  | c :: rest =>
    if c = 'e' ∨ c = 'E' then do
      let (s, rest) := sign rest
      let (ds, rest) ← digits? isDigit rest
      some ('e' :: s ++ ds, rest)
    else none
  | [] => none

def float? (spelling : List Char) (rest : List Char) : Option (Toml × List Char) := do
  let x ← Decimal.float? spelling
  if 0 < x ∧ !x.isFinite then none else some (.float x, rest)

def decimal? (l : List Char) : Option (Toml × List Char) := do
  let (s, unsigned) := sign l
  let (ds, rest) ← whole? unsigned
  let asInt : Option (Toml × List Char) :=
    let n : Int := decimalValue ds
    int? (if s = ['-'] then -n else n) rest
  match rest with
  | '.' :: behind =>
    match digits? isDigit behind with
    | none => asInt
    | some (places, rest) =>
      let spelling := s ++ ds ++ '.' :: places
      match exponent? rest with
      | some (e, rest) => float? (spelling ++ e) rest
      | none => float? spelling rest
  | _ =>
    match exponent? rest with
    | some (e, rest) => float? (s ++ ds ++ e) rest
    | none => asInt

def word? (w : String) (l : List Char) : Option (List Char) :=
  if w.toList.isPrefixOf l then some (l.drop w.length) else none

def special? (l : List Char) : Option (Toml × List Char) :=
  let (s, unsigned) := sign l
  let signed (x : Float) : Toml := .float (if s = ['-'] then -x else x)
  match word? "inf" unsigned, word? "nan" unsigned with
  | some rest, _ => some (signed (1 / 0), rest)
  | _, some rest => some (signed (0 / 0), rest)
  | none, none => none

def number? (l : List Char) : Option (Toml × List Char) :=
  match l with
  | '0' :: 'x' :: rest => based? 16 rest
  | '0' :: 'o' :: rest => based? 8 rest
  | '0' :: 'b' :: rest => based? 2 rest
  | _ => (decimal? l).or (special? l)

/-! ## Dates and times -/

def fixed? (n : Nat) (l : List Char) : Option (Nat × List Char) :=
  let ds := l.take n
  if ds.length = n ∧ ds.all isDigit then some (decimalValue ds, l.drop n) else none

def char? (c : Char) : List Char → Option (List Char)
  | d :: rest => if c = d then some rest else none
  | [] => none

def daysIn (year month : Nat) : Nat :=
  if month = 2 then
    if year % 4 = 0 ∧ (year % 100 ≠ 0 ∨ year % 400 = 0) then 29 else 28
  else if month = 4 ∨ month = 6 ∨ month = 9 ∨ month = 11 then 30
  else 31

def date? (l : List Char) : Option (List Char) := do
  let (year, l) ← fixed? 4 l
  let (month, l) ← fixed? 2 (← char? '-' l)
  let (day, l) ← fixed? 2 (← char? '-' l)
  if 1 ≤ month ∧ month ≤ 12 ∧ 1 ≤ day ∧ day ≤ daysIn year month then some l else none

def skipFraction (l : List Char) : List Char :=
  match l with
  | '.' :: c :: rest => if isDigit c then rest.dropWhile isDigit else l
  | _ => l

def time? (l : List Char) : Option (List Char) := do
  let (hour, l) ← fixed? 2 l
  let (minute, l) ← fixed? 2 (← char? ':' l)
  let (second, l) ← fixed? 2 (← char? ':' l)
  if hour ≤ 23 ∧ minute ≤ 59 ∧ second ≤ 60 then some (skipFraction l) else none

def skipOffset (l : List Char) : List Char :=
  let numeric (rest : List Char) : Option (List Char) := do
    let (hour, rest) ← fixed? 2 rest
    let (minute, rest) ← fixed? 2 (← char? ':' rest)
    if hour ≤ 23 ∧ minute ≤ 59 then some rest else none
  match l with
  | 'Z' :: rest | 'z' :: rest => rest
  | '+' :: rest | '-' :: rest => (numeric rest).getD l
  | _ => l

def moment? (l : List Char) : Option (Toml × List Char) :=
  match date? l with
  | none => (time? l).map fun rest => (.moment, rest)
  | some rest =>
    match rest with
    | c :: behind =>
      if c = 'T' ∨ c = 't' ∨ c = ' ' then
        match time? behind with
        | some rest => some (.moment, skipOffset rest)
        | none => some (.moment, rest)
      else some (.moment, rest)
    | [] => some (.moment, [])

end RouteScript.Toml
