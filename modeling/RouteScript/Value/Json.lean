import RouteScript.Json.Basic
import RouteScript.Value.Display

/-!
# Values as JSON

Nil, booleans, numbers, texts, arrays and maps have their JSON counterparts. An object is written as
the object of its fields, a float that JSON cannot write as null, and any other value as its text.
-/

namespace RouteScript.Value

mutual

/-- The JSON form of a value, where `object` gives the form of an object. -/
def toJsonWith (object : ObjectRef → Json) : Value → Json
  | .nil => .null
  | .bool b => .bool b
  | .int n => .int n
  | .float x => if x.isFinite then .float x else .null
  | .text s => .text s
  | .array items => .array (itemsToJson object items)
  | .map entries => .object (entriesToJson object entries)
  | .object ref => object ref
  | v => .text v.display

def itemsToJson (object : ObjectRef → Json) : List Value → List Json
  | [] => []
  | v :: rest => v.toJsonWith object :: itemsToJson object rest

def entriesToJson (object : ObjectRef → Json) : List (String × Value) → List (String × Json)
  | [] => []
  | (key, v) :: rest => (key, v.toJsonWith object) :: entriesToJson object rest

end

mutual

def objects : Value → List ObjectRef
  | .object ref => [ref]
  | .array items => itemObjects items
  | .map entries => entryObjects entries
  | _ => []

def itemObjects : List Value → List ObjectRef
  | [] => []
  | v :: rest => v.objects ++ itemObjects rest

def entryObjects : List (String × Value) → List ObjectRef
  | [] => []
  | (_, v) :: rest => v.objects ++ entryObjects rest

end

/-- Whether the objects that a value holds, and the objects that those hold in their fields, come to
an end after at most `depth` of them inside each other. -/
def endsWithin (fields : ObjectRef → Dict Value) : Nat → Value → Bool
  | 0, v => v.objects.isEmpty
  | depth + 1, v =>
    v.objects.all fun ref => (fields ref).all fun (_, w) => endsWithin fields depth w

/-- The JSON form of a value whose objects have the given fields, followed through at most `depth`
objects inside each other. -/
def toJson (fields : ObjectRef → Dict Value) : Nat → Value → Json
  | 0, v => v.toJsonWith fun _ => .null
  | depth + 1, v =>
    v.toJsonWith fun ref => .object ((fields ref).map fun (key, w) => (key, toJson fields depth w))

mutual

def ofJson : Json → Value
  | .null => .nil
  | .bool b => .bool b
  | .int n => .int n
  | .float x => .float x
  | .text s => .text s
  | .array items => .array (itemsOfJson items)
  | .object entries => .map (entriesOfJson entries)

def itemsOfJson : List Json → List Value
  | [] => []
  | j :: rest => ofJson j :: itemsOfJson rest

def entriesOfJson : List (String × Json) → List (String × Value)
  | [] => []
  | (key, j) :: rest => (key, ofJson j) :: entriesOfJson rest

end

end RouteScript.Value
