import RouteScript.Fault

/-!
# Elements of containers

Arrays are indexed by whole numbers from zero, maps by the texts of keys, texts by whole numbers,
and objects by the names of their fields. Reading what is not there gives nil.
-/

namespace RouteScript.Value

/-- The member of a list at a whole number, which may be negative or too large. -/
def nth? {α : Type} (items : List α) (i : Int64) : Option α :=
  if 0 ≤ i then items[i.toNatClampNeg]? else none

/-- The element of a container under a key, if the container can have and has one. -/
def element? (fields : ObjectRef → Dict Value) : Value → Value → Option Value
  | .array items, .int i => nth? items i
  | .map entries, key => Dict.get? key.display entries
  | .object ref, key => Dict.get? key.display (fields ref)
  | .text s, .int i => (nth? s.toList i).map fun c => .text (String.singleton c)
  | _, _ => none

/-- Whether a container can be indexed by a key at all. Nil can, and has no elements. -/
def isIndexable : Value → Value → Bool
  | .array _, .int _ | .map _, _ | .object _, _ | .text _, .int _ | .nil, _ => true
  | _, _ => false

def element (fields : ObjectRef → Dict Value) (container key : Value) : Except Fault Value :=
  if container.isIndexable key then .ok ((container.element? fields key).getD .nil)
  else .error (.index (.unindexable container.kind key.kind))

def member? (fields : ObjectRef → Dict Value) (name : String) : Value → Option Value
  | .object ref => Dict.get? name (fields ref)
  | .map entries => Dict.get? name entries
  | _ => none

/-- Where an element is stored: in a changed container, or in a field of an object. -/
inductive Placement where
  | container (changed : Value)
  | field (ref : ObjectRef) (name : String)

def prepared (key : Option Value) : Value → Value
  | .nil =>
    match key with
    | none | some (.int _) => .array []
    | some _ => .map []
  | v => v

/-- Store an element. An array grows by one at most. -/
def place (container : Value) (key : Option Value) (value : Value) : Except Fault Placement :=
  match container, key with
  | .array items, none => .ok (.container (.array (items ++ [value])))
  | .array items, some (.int i) =>
    if 0 ≤ i ∧ i.toNatClampNeg < items.length then
      .ok (.container (.array (items.set i.toNatClampNeg value)))
    else if 0 ≤ i ∧ i.toNatClampNeg = items.length then
      .ok (.container (.array (items ++ [value])))
    else .error (.index (.outOfRange i items.length))
  | .array _, some k => .error (.index (.notWhole k.kind))
  | .map entries, some k => .ok (.container (.map (Dict.insert k.display value entries)))
  | .map _, none => .error (.invalid .appendToMap)
  | .object ref, some k => .ok (.field ref k.display)
  | .object _, none => .error (.invalid .appendToObject)
  | v, _ => .error (.invalid (.indexAssignment v.kind))

end RouteScript.Value
