import RouteScript.Service.Call

/-!
# Calls of declared functions and methods

A call gets a frame of its own, and leaves it again however the body ends. Methods of hosted classes
that no script declares are carried out by a service.
-/

namespace RouteScript

namespace Task

def enter (this : Option Value) (t : Task) : Task :=
  { t with scope := t.scope.push this, calls := t.calls + 1 }

def leave (t : Task) : Task :=
  { t with scope := t.scope.pop, calls := t.calls - 1 }

end Task

namespace Evaluator

open Script

/-- Bind a parameter. A missing argument is nil, whatever the declared type. -/
def bindParameter (param : Parameter) (arg : Option Value) : Script Unit := do
  let tag := param.typeName.map Tag.ofName
  match arg, tag with
  | some value, some tag => declareVariable param.name tag value
  | some value, none => modifyScope (·.declare param.name value none)
  | none, tag => modifyScope (·.declare param.name .nil tag)

/-- Bind the parameters to the arguments in order. Surplus arguments are dropped. -/
def bindParameters : List Parameter → List Value → Script Unit
  | [], _ => return ()
  | param :: params, args => do
    bindParameter param args.head?
    bindParameters params args.tail

/-- The result of a call whose body has ended. A `break` or `continue` does not leave a call. -/
def callResult : Except Signal Value → Script Value
  | .ok v | .error (.returned v) => return v
  | .error .broken => fail (.invalid .breakOutside)
  | .error .continued => fail (.invalid .continueOutside)
  | .error x => signal x

def invokeFunction (ev : Evaluator) (decl : FunctionDecl) (args : List Value)
    (this : Option Value) : Script Value := do
  match decl.body with
  | none => fail (.invalid (.noBody decl.name))
  | some body =>
    let limit := (← store).settings.callLimit
    if limit ≤ (← task).calls then fail (.callDepth limit)
    else
      modifyTask (·.enter this)
      let outcome ← capture do
        bindParameters decl.params args
        ev.block body
      modifyTask (·.leave)
      callResult outcome

def callMethod (ev : Evaluator) (method : FunctionDecl) (receiver : ObjectRef)
    (args : List Value) : Script Value := do
  if method.body.isSome then ev.invokeFunction method args (some (.object receiver))
  else
    let s ← store
    match s.classes.hostedAncestor? receiver.className with
    | none => fail (.undefinedMethod receiver.className method.name)
    | some className =>
      match Dict.get? className s.services with
      | none => fail (.missingService className)
      | some service => service.call ev className receiver method.name args

def initialValue (ev : Evaluator) (property : PropertyDecl) : Script Value :=
  match property.initial, property.typeName with
  | some e, _ => ev.expr e
  | none, some typeName => return (Tag.ofName typeName).zero
  | none, none => return .nil

/-- Give the properties of an object their first values, one after the other. -/
def fillProperties (ev : Evaluator) (ref : ObjectRef) : List PropertyDecl → Script Unit
  | [] => return ()
  | property :: rest => do
    let value ← ev.initialValue property
    modifyStore (·.setField ref property.name value)
    ev.fillProperties ref rest

/-- An object of a class before its constructor has run. The properties of ancestors come first. -/
def newObject (ev : Evaluator) (className : String) : Script ObjectRef := do
  let classes := (← store).classes
  if classes.contains className then
    let ref ← update (·.newObject className [])
    ev.fillProperties ref ((classes.chain className).reverse.flatMap (·.decl.properties))
    return ref
  else fail (.undefinedClass className)

def create (ev : Evaluator) (className : String) (args : List Value) : Script ObjectRef := do
  let ref ← ev.newObject className
  let s ← store
  match s.classes.findMethod? className "constructor" with
  | some constructor =>
    let _ ← ev.callMethod constructor ref args
    return ref
  | none =>
    match (s.classes.hostedAncestor? className).bind fun name =>
        (Dict.get? name s.services).map (name, ·) with
    | some (name, service) =>
      let _ ← service.call ev name ref "constructor" args
      return ref
    | none => return ref

end Evaluator

end RouteScript
