import RouteScript.Decimal.Layout
import RouteScript.Json.Basic
import RouteScript.Text.Split

/-!
# Writing documents

Documents are written without blanks. In texts only quotes, backslashes and control characters are
escaped. Numbers that are not finite have no written form and stand as null.
-/

namespace RouteScript.Json

def hexDigit (n : Nat) : Char :=
  if n < 10 then Char.ofNat ('0'.toNat + n) else Char.ofNat ('a'.toNat + n - 10)

def escape (c : Char) : List Char :=
  if c = '"' then ['\\', '"']
  else if c = '\\' then ['\\', '\\']
  else if c = '\n' then ['\\', 'n']
  else if c = '\r' then ['\\', 'r']
  else if c = '\t' then ['\\', 't']
  else if c.toNat = 8 then ['\\', 'b']
  else if c.toNat = 12 then ['\\', 'f']
  else if c.toNat < 32 then ['\\', 'u', '0', '0', hexDigit (c.toNat / 16), hexDigit (c.toNat % 16)]
  else [c]

def quote (s : String) : String :=
  "\"" ++ String.ofList (s.toList.flatMap escape) ++ "\""

def writeFloat (x : Float) : String :=
  if x.isFinite then Decimal.Layout.interchange.render x else "null"

mutual

def write : Json → String
  | .null => "null"
  | .bool true => "true"
  | .bool false => "false"
  | .int n => toString n
  | .float x => writeFloat x
  | .text s => quote s
  | .array items => "[" ++ writeItems items ++ "]"
  | .object entries => "\x7b" ++ writeEntries entries ++ "\x7d"

def writeItems : List Json → String
  | [] => ""
  | [item] => item.write
  | item :: rest => item.write ++ "," ++ writeItems rest

def writeEntries : List (String × Json) → String
  | [] => ""
  | [(key, value)] => quote key ++ ":" ++ value.write
  | (key, value) :: rest => quote key ++ ":" ++ value.write ++ "," ++ writeEntries rest

end

end RouteScript.Json
