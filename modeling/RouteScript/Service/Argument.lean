import RouteScript.Task.Store

/-!
# Arguments of services

How the methods of services take their arguments. Arguments are counted from zero.
-/

namespace RouteScript.Service

structure Method where
  service : String
  name : String

namespace Method

def refuse {α : Type} (m : Method) (problem : ArgumentProblem) : Except Fault α :=
  .error (.argument m.service m.name problem)

def unknown {α : Type} (m : Method) : Except Fault α :=
  .error (.undefinedMethod m.service m.name)

def argument (m : Method) (args : List Value) (index : Nat) : Except Fault Value :=
  match args[index]? with
  | some v => .ok v
  | none => m.refuse (.missing index)

def text (m : Method) (args : List Value) (index : Nat) : Except Fault String := do
  match ← m.argument args index with
  | .text s => .ok s
  | .int n => .ok (toString n)
  | v => m.refuse (.notString index v.kind)

def number (m : Method) (args : List Value) (index : Nat) : Except Fault Value := do
  let v ← m.argument args index
  if v.isNumeric then .ok v else m.refuse (.notNumber index v.kind)

/-- A map or the fields of an object. Nil and a missing argument are the empty map. -/
def map (m : Method) (fields : ObjectRef → Dict Value) (args : List Value) (index : Nat) :
    Except Fault (Dict Value) :=
  match args[index]? with
  | none | some .nil => .ok []
  | some (.map entries) => .ok entries
  | some (.object ref) => .ok (fields ref)
  | some v => m.refuse (.notMap index v.kind)

end Method

end RouteScript.Service
