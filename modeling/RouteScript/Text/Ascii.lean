/-!
# ASCII letters

Upper case, lower case and digits of the ASCII range; every other character is left alone.
-/

namespace RouteScript.Text

def isDigit (c : Char) : Bool := '0' ≤ c && c ≤ '9'

def isLetter (c : Char) : Bool := ('a' ≤ c && c ≤ 'z') || ('A' ≤ c && c ≤ 'Z')

def digitValue (c : Char) : Nat := c.toNat - '0'.toNat

def decimalValue (l : List Char) : Nat :=
  l.foldl (fun n c => 10 * n + digitValue c) 0

def upper (s : String) : String :=
  String.ofList (s.toList.map Char.toUpper)

def lower (s : String) : String :=
  String.ofList (s.toList.map Char.toLower)

end RouteScript.Text
