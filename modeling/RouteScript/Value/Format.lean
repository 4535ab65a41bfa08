import RouteScript.Decimal.Numeral
import RouteScript.Text.Ascii
import RouteScript.Value.Display

/-!
# Formatted texts

A format is a text with verbs. `%s` and `%v` stand for the text of the next argument, `%d` for a
number without its fraction, `%f` for a number with six places or, as in `%.2f`, with the given
number of them, and `%%` for a percent sign.
-/

namespace RouteScript

open Text

inductive FormatPiece where
  | literal (chars : List Char)
  | text
  | whole
  | places (count : Nat)

namespace FormatPiece

/-- The piece for the character behind a percent sign. Other characters stand for themselves. -/
def ofVerb (precision : Option Nat) (verb : Char) : FormatPiece :=
  if verb = '%' then .literal ['%']
  else if verb = 's' ∨ verb = 'v' then .text
  else if verb = 'd' then .whole
  else if verb = 'f' then .places (precision.getD 6)
  else .literal ['%', verb]

/-- The number of places behind the point, in digits. Digits beyond the range of words, or none at
all, give no number. -/
def precision? (digits : List Char) : Option Nat :=
  let n := decimalValue digits
  if digits.isEmpty ∨ UInt64.size ≤ n then none else some n

/-- What has been seen of a verb: nothing, its percent sign, or its point with some digits. -/
inductive Seen where
  | nothing
  | percent
  | point (digits : List Char)

def scan : Seen → List Char → List FormatPiece
  | .nothing, [] => []
  | _, [] => [.literal ['%']]
  | .nothing, c :: rest =>
    if c = '%' then scan .percent rest else .literal [c] :: scan .nothing rest
  | .percent, c :: rest =>
    if c = '.' then scan (.point []) rest else ofVerb none c :: scan .nothing rest
  | .point digits, c :: rest =>
    if isDigit c then scan (.point (digits ++ [c])) rest
    else ofVerb (precision? digits) c :: scan .nothing rest

def render : FormatPiece → Value → String
  | .literal l, _ => String.ofList l
  | .text, v => v.display
  | .whole, .float x => toString x.toInt64
  | .whole, v => v.display
  | .places count, v => Decimal.fixed count (v.number?.getD 0)

/-- Write the pieces with the arguments in order. Verbs without an argument write nothing. -/
def fill : List FormatPiece → List Value → String
  | [], _ => ""
  | .literal l :: rest, args => String.ofList l ++ fill rest args
  | _ :: rest, [] => fill rest []
  | piece :: rest, v :: args => piece.render v ++ fill rest args

end FormatPiece

def format (template : String) (args : List Value) : String :=
  FormatPiece.fill (FormatPiece.scan .nothing template.toList) args

end RouteScript
