import RouteScript.Decimal.Dyadic
import RouteScript.Dict
import RouteScript.Syntax.Basic
import RouteScript.Value.Builtin

/-!
# Values

What the expressions of a script stand for. Arrays and maps are values; objects, futures and
channels are handles, and copies of a handle mean the same thing.
-/

namespace RouteScript

inductive Kind where
  | nil | bool | int | float | string | array | map | object | classRef | function | method | future
  | channel | stream
  deriving DecidableEq

def Kind.name : Kind → String
  | .nil => "nil"
  | .bool => "bool"
  | .int => "int"
  | .float => "float"
  | .string => "string"
  | .array => "array"
  | .map => "map"
  | .object => "object"
  | .classRef => "class"
  | .function => "function"
  | .method => "method"
  | .future => "future"
  | .channel => "channel"
  | .stream => "stream"

inductive Console where
  | output | input
  deriving DecidableEq

/-- A handle of an object. The class of an object never changes. -/
structure ObjectRef where
  id : Nat
  className : String
  deriving DecidableEq

inductive Value where
  | nil
  | bool (value : Bool)
  | int (value : Int64)
  | float (value : Float)
  | text (value : String)
  | array (items : List Value)
  | map (entries : List (String × Value))
  | object (ref : ObjectRef)
  | classRef (name : String)
  | function (decl : FunctionDecl)
  | method (decl : FunctionDecl) (receiver : ObjectRef)
  | builtin (builtin : Builtin)
  | future (id : Nat)
  | channel (id : Nat)
  | stream (console : Console)
  deriving Inhabited

namespace Value

def kind : Value → Kind
  | .nil => .nil
  | .bool _ => .bool
  | .int _ => .int
  | .float _ => .float
  | .text _ => .string
  | .array _ => .array
  | .map _ => .map
  | .object _ => .object
  | .classRef _ => .classRef
  | .function _ => .function
  | .method .. => .method
  | .builtin _ => .function
  | .future _ => .future
  | .channel _ => .channel
  | .stream _ => .stream

/-- Whether a value counts as true. Floats, maps and handles always do. -/
def isTruthy : Value → Bool
  | .nil => false
  | .bool b => b
  | .int n => n != 0
  | .text s => !(s == "" || s == "0")
  | .array items => !items.isEmpty
  | _ => true

def isNil : Value → Bool
  | .nil => true
  | _ => false

def isNumeric : Value → Bool
  | .int _ | .float _ => true
  | _ => false

def isCallable : Value → Bool
  | .function _ | .method .. | .builtin _ => true
  | _ => false

def text? : Value → Option String
  | .text s => some s
  | _ => none

def int? : Value → Option Int64
  | .int n => some n
  | _ => none

def number? : Value → Option Float
  | .int n => some (Decimal.ofInt64 n)
  | .float x => some x
  | _ => none

def describe : Value → String
  | .object ref => ref.className
  | v => v.kind.name

end Value

end RouteScript
