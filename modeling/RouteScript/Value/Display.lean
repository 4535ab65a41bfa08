import RouteScript.Decimal.Layout
import RouteScript.Text.Quoted
import RouteScript.Text.Split
import RouteScript.Value.Basic

/-!
# Texts of values

Every value has a text: what `echo` writes, what `+` joins and what loose equality compares. Inside
arrays and maps texts are quoted and nil is named. A dump also shows the kinds of the parts.
-/

namespace RouteScript.Value

mutual

def display : Value → String
  | .nil => ""
  | .bool true => "true"
  | .bool false => "false"
  | .int n => toString n
  | .float x => Decimal.Layout.plain.render x
  | .text s => s
  | .array items => "[" ++ displayItems items ++ "]"
  | .map entries => "\x7b" ++ displayEntries entries ++ "\x7d"
  | .object ref => "<" ++ ref.className ++ " instance>"
  | .classRef name => "<class " ++ name ++ ">"
  | .function decl => "<function " ++ decl.name ++ ">"
  | .builtin b => "<builtin " ++ b.name ++ ">"
  | .method decl receiver => "<method " ++ receiver.className ++ "::" ++ decl.name ++ ">"
  | .future _ => "<future>"
  | .channel _ => "<channel>"
  | .stream .output => "cout"
  | .stream .input => "cin"

def displayInner : Value → String
  | .text s => "\"" ++ s ++ "\""
  | .nil => "nil"
  | v => v.display

def displayItems : List Value → String
  | [] => ""
  | [v] => v.displayInner
  | v :: rest => v.displayInner ++ ", " ++ displayItems rest

def displayEntries : List (String × Value) → String
  | [] => ""
  | [(key, v)] => key ++ ": " ++ v.displayInner
  | (key, v) :: rest => key ++ ": " ++ v.displayInner ++ ", " ++ displayEntries rest

end

mutual

def dump : Value → String
  | .nil => "Nil"
  | .bool true => "Bool(true)"
  | .bool false => "Bool(false)"
  | .int n => "Int(" ++ toString n ++ ")"
  | .float x => "Float(" ++ Decimal.Layout.dump.render x ++ ")"
  | .text s => "Str(" ++ Text.quote s ++ ")"
  | .array items => "[" ++ dumpItems items ++ "]"
  | .map entries => "\x7b" ++ dumpEntries entries ++ "\x7d"
  | v => v.display

def dumpItems : List Value → String
  | [] => ""
  | [v] => v.dump
  | v :: rest => v.dump ++ ", " ++ dumpItems rest

def dumpEntries : List (String × Value) → String
  | [] => ""
  | [(key, v)] => Text.quote key ++ ": " ++ v.dump
  | (key, v) :: rest => Text.quote key ++ ": " ++ v.dump ++ ", " ++ dumpEntries rest

end

/-- Loose equality: nil equals nil only, numbers go by value, objects and channels by identity, and
everything else by its text. -/
def looseEq : Value → Value → Bool
  | .nil, .nil => true
  | .nil, _ => false
  | _, .nil => false
  | .int a, .int b => a == b
  | .int a, .float b => Decimal.ofInt64 a == b
  | .float a, .int b => a == Decimal.ofInt64 b
  | .float a, .float b => a == b
  | .object a, .object b => a.id == b.id
  | .channel a, .channel b => a == b
  | a, b => a.display == b.display

end RouteScript.Value
