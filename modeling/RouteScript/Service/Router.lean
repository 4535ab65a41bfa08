import RouteScript.Eval.Evaluator
import RouteScript.Service.Argument

/-!
# Adding routes

The methods with which scripts add routes and open and close middleware.
-/

namespace RouteScript.Service

def addRoute (verb path : String) (handler : Value) : Script Unit :=
  Script.modifyStore fun s => { s with routes := s.routes.add verb path handler }

def addRoutes (path : String) : List (String × Value) → Script Unit
  | [] => return ()
  | (verb, handler) :: rest => do
    addRoute verb path handler
    addRoutes path rest

/-- The handler of a route: a text with an at sign, or something that can be called. -/
def routeHandler (m : Method) (args : List Value) : Except Fault Value := do
  let handler ← m.argument args 1
  let isTarget := match handler with
    | .text s => s.toList.contains '@'
    | v => v.isCallable
  if isTarget then .ok handler else m.refuse (.routeHandler handler.display)

def verbsOf (list : String) : List String :=
  ((Text.split "|" list).map fun verb => Text.upper (Text.trim verb)).filter (· != "")

/-- The handlers for the verbs. A target with one method serves all verbs; of a target with several
methods, each verb gets the one in its place. -/
def targetsFor (m : Method) (verbs : List String) (target : String) :
    Except Fault (List (String × Value)) :=
  match Text.split "@" target with
  | [_, _] => .ok (verbs.map fun verb => (verb, .text target))
  | controller :: first :: rest =>
    .ok (verbs.zip ((first :: rest).map fun action => .text (controller ++ "@" ++ action)))
  | _ => m.refuse (.handlerTarget target)

def pushMiddleware (name : String) : Script Unit :=
  Script.modifyStore fun s => { s with routes := s.routes.push name }

def popMiddleware : Script Unit :=
  Script.modifyStore fun s => { s with routes := s.routes.pop }

def onRouter (invoke : Invoke) (method : String) (args : List Value) : Script Value := do
  let m : Method := ⟨"Router", method⟩
  match method with
  | "constructor" => return .nil
  | "get" | "post" | "put" | "delete" =>
    let path ← m.text args 0
    let handler ← routeHandler m args
    addRoute method path handler
    return .nil
  | "api" =>
    let path ← m.text args 0
    let handler ← routeHandler m args
    addRoutes path [("GET", handler), ("POST", handler)]
    return .nil
  | "match" =>
    let verbs ← m.text args 0
    let path ← m.text args 1
    let target ← m.text args 2
    let routes ← targetsFor m (verbsOf verbs) target
    addRoutes path routes
    return .nil
  | "middleware" =>
    let name ← m.text args 0
    pushMiddleware name
    return .nil
  | "end" =>
    popMiddleware
    return .nil
  | "group" =>
    let name ← m.text args 0
    let body ← m.argument args 1
    if body.isCallable then
      pushMiddleware name
      let outcome ← (invoke body []).capture
      popMiddleware
      let _ ← Script.release outcome
      return .nil
    else m.refuse (.groupBody body.kind)
  | _ => m.unknown

end RouteScript.Service
