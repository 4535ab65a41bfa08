import RouteScript.Eval.Evaluator
import RouteScript.Json.Reader
import RouteScript.Json.Writer
import RouteScript.Value.Format

/-!
# Built-in functions

What the built-in functions do with their arguments, whose number has been checked before.
-/

namespace RouteScript

namespace Builtin

def text (role : String) : Value → Except Fault String
  | .text s => .ok s
  | v => .error (.invalid (.argumentKind role .string v.kind))

def channel (role : String) : Value → Except Fault Nat
  | .channel id => .ok id
  | v => .error (.invalid (.argumentKind role .channel v.kind))

def size (s : Store) : Value → Nat
  | .array items => items.length
  | .map entries => entries.length
  | .text t => t.length
  | .object ref => (s.fields ref).length
  | .channel id => (s.channels[id]?).elim 0 (·.size)
  | _ => 0

def keysOf : Value → Except Fault Value
  | .map entries => .ok (.array ((Dict.keys entries).map .text))
  | .array items => .ok (.array ((List.range items.length).map fun i => .int (Int64.ofNat i)))
  | v => .error (.invalid (.argumentKind "keys" .mapOrArray v.kind))

def valuesOf : Value → Except Fault Value
  | .map entries => .ok (.array (Dict.values entries))
  | .array items => .ok (.array items)
  | v => .error (.invalid (.argumentKind "values" .mapOrArray v.kind))

def explodeText (delimiter text : Value) : Except Fault Value := do
  let delimiter ← Builtin.text "explode delimiter" delimiter
  let text ← Builtin.text "explode string" text
  if delimiter = "" then .error (.invalid .emptyDelimiter)
  else .ok (.array ((Text.split delimiter text).map .text))

/-- The texts of the elements of an array with glue between them. The glue may come first or
last. -/
def implodeItems : Value → Value → Except Fault Value
  | .text glue, .array items | .array items, .text glue =>
    .ok (.text (Text.join glue (items.map Value.display)))
  | _, _ => .error (.invalid .implodeArguments)

def lastOf : Value → Value
  | .array items => items.getLast?.getD .nil
  | .map entries => (Dict.values entries).getLast?.getD .nil
  | _ => .nil

def appendTo (items : List Value) : Value → Except Fault Value
  | .array first => .ok (.array (first ++ items))
  | .nil => .ok (.array items)
  | v => .error (.invalid (.argumentKind "append" .array v.kind))

/-- Two arrays one after the other, or a map with the entries of another one written over it. -/
def mergeOf : Value → Value → Except Fault Value
  | .array left, .array right => .ok (.array (left ++ right))
  | .map left, .map right => .ok (.map (Dict.merge left right))
  | left, right => .error (.invalid (.mergeArguments left.kind right.kind))

/-- A value as a whole number. What is not a number counts as zero. -/
def toWhole : Value → Int64
  | .int n => n
  | .float x => x.toInt64
  | .bool b => if b then 1 else 0
  | .text s =>
    let l := Text.trimList s.toList
    ((Decimal.int64? l).or ((Decimal.float? l).map (·.toInt64))).getD 0
  | _ => 0

/-- A value as a float. What is not a number counts as zero. -/
def toDouble : Value → Float
  | .int n => Decimal.ofInt64 n
  | .float x => x
  | .bool b => if b then 1 else 0
  | .text s => (Decimal.float? (Text.trimList s.toList)).getD 0
  | _ => 0

def decode (v : Value) : Except Fault Value := do
  let text ← Builtin.text "json_decode" v
  .ok ((Json.read? text).elim .nil Value.ofJson)

def verify : Value → Bool
  | .text s => (Json.read? s).isSome
  | _ => false

def capacity : Option Value → Except Fault Nat
  | none => .ok 0
  | some (.int n) =>
    if 0 ≤ n then .ok n.toNatClampNeg else .error (.invalid (.negativeCapacity n))
  | some v => .error (.invalid (.capacityKind v.kind))

/-- The content of a file, which is looked for in the directory of the script first. -/
def fileContents (t : Task) (s : Store) (path : String) : Except Fault Value :=
  let path := match t.directory with
    | some directory =>
      let beside := Path.join directory path
      if !Path.isAbsolute path && s.files.isFile s.directory beside then beside else path
    | none => path
  match s.files.read s.directory path with
  | .ok content => .ok (.text content)
  | .error problem => .error (.file problem)

/-- The document of a value. Objects that hold each other in a circle are followed without end. -/
def encode (v : Value) : Script Value := do
  let s ← Script.store
  if v.endsWithin s.fields (s.objects.size + 1) then return .text (s.toJson v).write
  else Script.starve

def printLines : List Value → Script Unit
  | [] => return ()
  | v :: rest => do
    Script.write (v.display ++ "\n")
    printLines rest

/-- The outcome of a future. Anything else is its own outcome. -/
def awaitValue : Value → Script Value
  | .future id => do
    match ← Script.request (.await id) with
    | Except.ok v | Except.error (.returned v) => return v
    | Except.error .broken | Except.error .continued => return .nil
    | Except.error x => Script.signal x
  | v => return v

/-- Hand a call over to a new task. What cannot be called is a future that is known already. -/
def asyncValue (v : Value) : Script Value := do
  if v.isCallable then Script.spawn (.call v)
  else
    let id ← Script.update (·.newFuture (some (.ok v)))
    return .future id

def apply (b : Builtin) (args : List Value) : Script Value := do
  let first := args.head?.getD .nil
  let second := args[1]?.getD .nil
  match b with
  | .print | .echo =>
    printLines args
    return .nil
  | .printf =>
    let template ← Builtin.text "printf format" first
    Script.write (format template args.tail)
    return .nil
  | .env =>
    let name ← Builtin.text "env key" first
    match Dict.get? name (← Script.store).environment with
    | some value => return .text value
    | none => return args[1]?.getD (.text "")
  | .len | .count => return .int (Int64.ofNat (size (← Script.store) first))
  | .keys => keysOf first
  | .values => valuesOf first
  | .explode => explodeText first second
  | .implode => implodeItems first second
  | .last => return lastOf first
  | .append => appendTo args.tail first
  | .merge => mergeOf first second
  | .jsonEncode => encode first
  | .jsonDecode => decode first
  | .jsonVerify => return .bool (verify first)
  | .fileGetContents =>
    let path ← Builtin.text "file_get_contents path" first
    fileContents (← Script.task) (← Script.store) path
  | .str => return .text first.display
  | .int => return .int (toWhole first)
  | .float => return .float (toDouble first)
  | .typeOf => return .text first.describe
  | .async => asyncValue first
  | .await => awaitValue first
  | .makeChan =>
    let capacity ← capacity args.head?
    Script.update (·.newChannel capacity)
  | .send =>
    let id ← channel "send" first
    Script.send id second
    return .nil
  | .recv =>
    let id ← channel "recv" first
    return (← Script.receive id).getD .nil
  | .close =>
    let id ← channel "close" first
    match (← Script.store).channels[id]? with
    | none => return .nil
    | some c =>
      let closed ← c.close
      Script.modifyStore fun s => { s with channels := s.channels.setIfInBounds id closed }
      return .nil

def call (b : Builtin) (args : List Value) : Script Value :=
  if b.arity.accepts args.length then b.apply args
  else Script.fail (.invalid (.argumentCount b args.length))

end Builtin

end RouteScript
