import RouteScript.Eval.Evaluator
import RouteScript.Value.Element

/-!
# Targets of assignments

Variables, members and elements can be assigned to. Arrays and maps are values, so an assignment
inside one of them ends in an assignment of the changed container to the place that it came from.
-/

namespace RouteScript.Evaluator

open Script

def placeInVariable (name : String) (key : Option Value) (value : Value) : Script Unit := do
  let container := (((← scope).get? name).getD .nil).prepared key
  modifyScope (·.set name container)
  match ← ofExcept (container.place key value) with
  | .container changed => modifyScope (·.set name changed)
  | .field ref field => modifyStore (·.setField ref field value)

/-- Put an element into the container in a variable. A variable that is not bound starts as nil. -/
def storeInVariable (name : String) (key : Option Value) (value : Value) : Script Unit := do
  unless (← scope).contains name do assignVariable name .nil
  placeInVariable name key value

def assign (ev : Evaluator) : Expr → Value → Script Unit
  | .name word, value => assignVariable word value
  | .member object property access, value => do
    match ← ev.expr object with
    | .object ref => modifyStore (·.setField ref property value)
    | .map entries =>
      if access = .static then fail (.invalid (.writeMember property .map))
      else ev.assign object (.map (Dict.insert property value entries))
    | .nil =>
      if access = .static then fail (.invalid (.writeMember property .nil))
      else ev.assign object (.map [(property, value)])
    | other => fail (.invalid (.writeMember property other.kind))
  | .index (.name word) key, value => do
    let key ← key.mapM ev.expr
    storeInVariable word key value
  | .index target key, value => do
    let key ← key.mapM ev.expr
    let container := (← ev.expr target).prepared key
    match ← ofExcept (container.place key value) with
    | .container changed => ev.assign target changed
    | .field ref field => modifyStore (·.setField ref field value)
  | _, _ => fail (.invalid .assignmentTarget)

def existing? (ev : Evaluator) : Expr → Script (Option Value)
  | .name word => do return (← scope).get? word
  | .this => do return (← scope).this
  | .index target (some key) => do
    match ← ev.existing? target with
    | none => return none
    | some container =>
      let key ← ev.expr key
      return container.element? (← store).fields key
  | .member object property _ => do
    match ← ev.existing? object with
    | none => return none
    | some container => return container.member? (← store).fields property
  | _ => return none

def allExist (ev : Evaluator) : List Expr → Script Bool
  | [] => return true
  | e :: rest => do
    match ← ev.existing? e with
    | none => return false
    | some _ => ev.allExist rest

def isPlace : Expr → Bool
  | .name _ | .this | .index .. | .member .. => true
  | _ => false

end RouteScript.Evaluator
