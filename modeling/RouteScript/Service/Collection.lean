import RouteScript.Service.Argument
import RouteScript.Task.Script

/-!
# Stacks and queues

Objects of these classes keep their elements in a field.
-/

namespace RouteScript.Service

def elementsField : String := "_data"

def elements (s : Store) (ref : ObjectRef) : List Value :=
  match Dict.get? elementsField (s.fields ref) with
  | some (.array items) => items
  | _ => []

def setElements (ref : ObjectRef) (items : List Value) : Script Unit :=
  Script.modifyStore (·.setField ref elementsField (.array items))

def onStack (ref : ObjectRef) (method : String) (args : List Value) : Script Value := do
  let m : Method := ⟨"Stack", method⟩
  let items := elements (← Script.store) ref
  match method with
  | "constructor" =>
    setElements ref items
    return .nil
  | "push" =>
    let v ← m.argument args 0
    setElements ref (items ++ [v])
    return .nil
  | "pop" =>
    setElements ref items.dropLast
    return items.getLast?.getD .nil
  | "peek" => return items.getLast?.getD .nil
  | "size" => return .int (Int64.ofNat items.length)
  | "isEmpty" => return .bool items.isEmpty
  | _ => m.unknown

def onQueue (ref : ObjectRef) (method : String) (args : List Value) : Script Value := do
  let m : Method := ⟨"Queue", method⟩
  let items := elements (← Script.store) ref
  match method with
  | "constructor" =>
    setElements ref items
    return .nil
  | "enqueue" =>
    let v ← m.argument args 0
    setElements ref (items ++ [v])
    return .nil
  | "dequeue" =>
    match items with
    | [] => return .nil
    | v :: rest =>
      setElements ref rest
      return v
  | "peek" => return items.head?.getD .nil
  | "size" => return .int (Int64.ofNat items.length)
  | "isEmpty" => return .bool items.isEmpty
  | _ => m.unknown

end RouteScript.Service
