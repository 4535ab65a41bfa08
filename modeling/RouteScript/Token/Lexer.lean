import RouteScript.Decimal.Numeral
import RouteScript.Token.Basic

/-!
# From source text to tokens

Blanks and comments stand between tokens and are passed over. Every other character belongs to
exactly one token, so reading never fails: a character that starts no token is a token of its own.
-/

namespace RouteScript.Token

open Text

def isGapBlank (c : Char) : Bool := c == ' ' || c == '\t' || c == '\r'

/-- Whether a comment starts here: `#`, or two slashes. -/
def startsComment (c : Char) (rest : List Char) : Bool :=
  c == '#' || (c == '/' && rest.head? == some '/')

/-- Split off the blanks and comments at the front. A comment runs up to the end of its line, which
is not part of it. -/
def splitGap (inComment : Bool) : List Char → List Char × List Char
  | [] => ([], [])
  | c :: rest =>
    if (inComment && c != '\n') || startsComment c rest then
      let (gap, after) := splitGap true rest
      (c :: gap, after)
    else if isGapBlank c then
      let (gap, after) := splitGap false rest
      (c :: gap, after)
    else ([], c :: rest)

def startsName (c : Char) : Bool := isLetter c || c == '_' || c == '@'

def continuesName (c : Char) : Bool := startsName c || isDigit c

/-- A number: digits, and places behind a point when a digit follows the point. The second part is
the length of its spelling. -/
def number (l : List Char) : Lexeme × Nat :=
  let whole := l.takeWhile isDigit
  let bare :=
    match Decimal.int64? whole with
    | some n => Lexeme.integer n
    | none => Lexeme.illegal (String.ofList whole)
  match l.dropWhile isDigit with
  | '.' :: d :: rest =>
    if isDigit d then
      let places := (d :: rest).takeWhile isDigit
      (.float (Decimal.nearest false (decimalValue (whole ++ places)) (-places.length)),
        whole.length + 1 + places.length)
    else (bare, whole.length)
  | _ => (bare, whole.length)

def word (l : List Char) : Lexeme × Nat :=
  let letters := l.takeWhile continuesName
  let spelling := String.ofList letters
  match Keyword.ofWord? spelling with
  | some k => (.keyword k, letters.length)
  | none => (.name spelling, letters.length)

/-- A text in quotes; one without its closing quote runs to the end of the source. The argument
starts behind the opening quote. -/
def quoted (l : List Char) : Lexeme × Nat :=
  let body := l.takeWhile (· != '"')
  (.text (String.ofList body), body.length + 1 + min 1 (l.length - body.length))

def mark (c : Char) (rest : List Char) : Lexeme × Nat :=
  match rest.head?.bind (Mark.ofPair? c) with
  | some m => (.mark m, 2)
  | none =>
    match Mark.ofChar? c with
    | some m => (.mark m, 1)
    | none => (.illegal (String.singleton c), 1)

/-- The token at the front of `c :: rest` and the length of its spelling. -/
def scan (c : Char) (rest : List Char) : Lexeme × Nat :=
  if c = '\n' then (.newline, 1)
  else if c = '"' then quoted rest
  else if isDigit c then number (c :: rest)
  else if startsName c then word (c :: rest)
  else mark c rest

theorem length_splitGap (b : Bool) (l : List Char) : (splitGap b l).2.length ≤ l.length := by
  induction l generalizing b with
  | nil => simp [splitGap]
  | cons c rest ih =>
    unfold splitGap
    split
    · exact Nat.le_succ_of_le (ih true)
    · split
      · exact Nat.le_succ_of_le (ih false)
      · exact Nat.le_refl _

/-- The tokens of `l`, which starts at `p`. The spelling of a token has at least one character. -/
def tokensFrom (p : Position) (l : List Char) : List Token :=
  let front := splitGap false l
  let start := p.after front.1
  match h : front.2 with
  | [] => [⟨.eof, start⟩]
  | c :: rest =>
    let found := scan c rest
    let more := found.2 - 1
    ⟨found.1, start⟩ :: tokensFrom (start.after (c :: rest.take more)) (rest.drop more)
termination_by l.length
decreasing_by
  have := length_splitGap false l
  simp only [front] at h
  rw [h] at this
  simp only [List.length_cons, List.length_drop] at this ⊢
  omega

def tokenize (source : String) : List Token := tokensFrom Position.start source.toList

end RouteScript.Token
