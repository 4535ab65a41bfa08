import RouteScript.Decimal.Numeral
import RouteScript.Text.Blank
import RouteScript.Value.Basic

/-!
# Declared types

A variable declared with a type holds only values that its tag accepts. Words that name no other
tag name a class.
-/

namespace RouteScript

inductive Tag where
  | mixed | int | float | string | bool | array | map | channel | object
  | instance (className : String)
  deriving DecidableEq

namespace Tag

def name : Tag → String
  | .mixed => "mixed"
  | .int => "int"
  | .float => "float"
  | .string => "string"
  | .bool => "bool"
  | .array => "array"
  | .map => "map"
  | .channel => "channel"
  | .object => "object"
  | .instance className => className

def ofName (word : String) : Tag :=
  if word = "" ∨ word = "mixed" ∨ word = "var" ∨ word = "let" ∨ word = "any" then .mixed
  else if word = "int" ∨ word = "integer" then .int
  else if word = "float" ∨ word = "double" then .float
  else if word = "string" then .string
  else if word = "bool" ∨ word = "boolean" then .bool
  else if word = "array" ∨ word = "list" then .array
  else if word = "map" then .map
  else if word = "channel" then .channel
  else if word = "object" then .object
  else .instance word

def zero : Tag → Value
  | .int => .int 0
  | .float => .float 0
  | .string => .text ""
  | .bool => .bool false
  | .array => .array []
  | .map => .map []
  | _ => .nil

/-- Whether a tag accepts a value, as far as its kind tells; whether an object belongs to a class is
left open. -/
def accepts? : Tag → Value → Option Bool
  | .mixed, _ => some true
  | .int, v => some (v.kind == .int)
  | .float, v => some (v.kind == .float || v.kind == .int)
  | .string, v => some (v.kind == .string)
  | .bool, v => some (v.kind == .bool)
  | .array, v => some (v.kind == .array)
  | .map, v => some (v.kind == .map)
  | .channel, v => some (v.kind == .channel)
  | .object, v => some (v.kind == .object || v.kind == .nil)
  | .instance _, .nil => some true
  | .instance _, .object _ => none
  | .instance _, _ => some false

/-- What a line from the console becomes for a variable with this tag. A line that does not fit
stays a text. -/
def coerce (tag : Tag) (line : String) : Value :=
  let trimmed := Text.trimList line.toList
  match tag with
  | .int =>
    if trimmed.isEmpty then .int 0
    else (Decimal.int64? trimmed).elim (.text line) .int
  | .float =>
    if trimmed.isEmpty then .float 0
    else (Decimal.float? trimmed).elim (.text line) .float
  | .bool =>
    let word := String.ofList trimmed
    if word = "true" ∨ word = "1" then .bool true
    else if word = "false" ∨ word = "0" ∨ word = "" then .bool false
    else .text line
  | _ => .text line

end Tag

end RouteScript
