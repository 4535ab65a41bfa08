import RouteScript.Toml.Lexeme

/-!
# Reading TOML documents

A document is read line by line. Values may be nested up to a limit.
-/

namespace RouteScript.Toml

def depthLimit : Nat := 79

def keyLimit : Nat := 79

/-- The elements of an array behind its bracket, where `value?` reads one; at most `n` of them. -/
def items? (value? : List Char → Option (Toml × List Char)) :
    Nat → List Char → Option (List Toml × List Char)
  | 0, _ => none
  | n + 1, l =>
    match skipLines (l.length + 1) l with
    | ']' :: rest => some ([], rest)
    | l => do
      let (v, rest) ← value? l
      match skipLines (rest.length + 1) rest with
      | ',' :: rest => (items? value? n rest).map fun (vs, rest) => (v :: vs, rest)
      | ']' :: rest => some ([v], rest)
      | _ => none

/-- A key, an equals sign and a value, where `value?` reads the value. -/
def pair? (value? : List Char → Option (Toml × List Char)) (l : List Char) :
    Option ((List String × Toml) × List Char) := do
  let (keys, rest) ← key? keyLimit l
  match rest with
  | '=' :: rest =>
    let (v, rest) ← value? (skipBlanks rest)
    some ((keys, v), rest)
  | _ => none

/-- The entries of a table within braces, added to `t`; at most `n` of them. -/
def pairs? (value? : List Char → Option (Toml × List Char)) :
    Nat → Toml → List Char → Option (Toml × List Char)
  | 0, _, _ => none
  | n + 1, t, l => do
    let ((keys, v), rest) ← pair? value? l
    let t ← t.add? keys v
    match skipBlanks rest with
    | ',' :: rest => pairs? value? n t rest
    | '\x7d' :: rest => some (t, rest)
    | _ => none

def value? : Nat → List Char → Option (Toml × List Char)
  | depth, l =>
    match depth, l with
    | _, [] => none
    | 0, c :: _ => if c = '[' ∨ c = '\x7b' then none else scalar? l
    | depth + 1, c :: rest =>
      if c = '[' then
        (items? (value? depth) (l.length + 1) rest).map fun (vs, rest) => (.array vs, rest)
      else if c = '\x7b' then
        match skipBlanks rest with
        | '\x7d' :: rest => some (.table .inline [], rest)
        | rest => pairs? (value? depth) (l.length + 1) (.table .inline []) rest
      else scalar? l
where
  /-- A value without parts. -/
  scalar? (l : List Char) : Option (Toml × List Char) :=
    match l with
    | '"' :: _ | '\'' :: _ => (text? l).map fun (s, rest) => (.text s, rest)
    | 't' :: _ => (word? "true" l).map fun rest => (.bool true, rest)
    | 'f' :: _ => (word? "false" l).map fun rest => (.bool false, rest)
    | _ => (moment? l).or (number? l)

def header? (close : String) (l : List Char) : Option (List String × List Char) := do
  let (keys, rest) ← key? keyLimit l
  let rest ← word? close rest
  some (keys, ← lineEnd? rest)

/-- Read the lines of a document into `root`, where `current` leads to the open table; at most `n`
lines are read. -/
def lines? : Nat → Toml → List String → List Char → Option Toml
  | 0, _, _, _ => none
  | n + 1, root, current, l =>
    match skipLines (l.length + 1) l with
    | [] => some root
    | '[' :: '[' :: rest => do
      let (keys, rest) ← header? "]]" rest
      lines? n (← root.openTables? keys) keys rest
    | '[' :: rest => do
      let (keys, rest) ← header? "]" rest
      lines? n (← root.openTable? keys) keys rest
    | l => do
      let ((keys, v), rest) ← pair? (value? depthLimit) l
      let root ← root.alter? false (·.add? keys v) current
      lines? n root current (← lineEnd? rest)

def read? (source : String) : Option Toml :=
  let l := match source.toList with
    | c :: rest => if c.toNat = 0xFEFF then rest else c :: rest
    | [] => []
  lines? (l.length + 1) (.table .header []) [] l

end RouteScript.Toml
