import RouteScript.Eval.Perform

/-!
# Serving requests

A request goes to the route for its method and path. The middleware of the route is asked first, in
order; the first one that does not let the request pass answers it with a redirect.
-/

namespace RouteScript

structure Refusal where
  url : String
  flash : Dict Value := []

namespace Middleware

def has (key : String) (session : Dict Value) : Bool :=
  (Dict.get? key session).any fun v => !v.isNil

def isAdmin (session : Dict Value) : Bool :=
  match Dict.get? "user_role" session with
  | some (.text role) => role == "admin"
  | _ => false

/-- The refusal of one middleware. Unknown middleware lets every request pass. -/
def refusal? (name : String) (session : Dict Value) : Option Refusal :=
  match name with
  | "auth" =>
    if has "user_id" session then none
    else some ⟨"/login", [("error", .text "Please log in to continue.")]⟩
  | "guest" => if has "user_id" session then some { url := "/dashboard" } else none
  | "admin" =>
    if isAdmin session then none
    else some ⟨"/", [("error", .text "Administrator access required.")]⟩
  | _ => none

def firstRefusal? (names : List String) (session : Dict Value) : Option Refusal :=
  names.findSome? (refusal? · session)

end Middleware

namespace Evaluator

open Script

def controller (ev : Evaluator) (className : String) : Script ObjectRef := do
  match ← (ev.create className []).capture with
  | .ok ref => return ref
  | .error (.returned (.object ref)) => return ref
  | .error (.returned v) => fail (.invalid (.controllerValue className v.kind))
  | .error x => fail x.toFault

def handle (ev : Evaluator) (handler : Value) (params : List String) : Script Value := do
  let args := params.map Value.text
  match handler with
  | .text target =>
    match Text.splitFirst '@' target.toList with
    | none => fail (.invalid (.malformedHandler target))
    | some (className, action) =>
      let className := String.ofList className
      let action := String.ofList action
      let ref ← ev.controller className
      match (← store).classes.resolve? className action with
      | none => fail (.undefinedMethod className action)
      | some method => (ev.callMethod method ref args).settle
  | callee => (ev.run (.call callee args)).settle

def serve (ev : Evaluator) (route : Route) (params : List String) (session : Dict Value) :
    Script Value :=
  match Middleware.firstRefusal? route.middleware session with
  | some refusal => update (Service.newRedirect refusal.url refusal.flash)
  | none => ev.handle route.handler params

/-- Serve a request. The result is the answer or a fault, and the session afterwards. -/
def dispatch (ev : Evaluator) (method path : String) (request session : Dict Value) :
    Script (Except Fault Value × Dict Value) := do
  match (← store).routes.find? method path with
  | none => return (.error (.invalid (.noRoute (Text.upper method) path)), session)
  | some (route, params) =>
    let requestRef ← update (·.newObject "Request" request)
    let sessionRef ← update (·.newObject "Session" session)
    modifyScope fun s =>
      (s.setGlobal Service.requestGlobal (.object requestRef)).setGlobal Service.sessionGlobal
        (.object sessionRef)
    let outcome ← (ev.serve route params session).capture
    let session := (← store).fields sessionRef
    match outcome with
    | .ok v => return (.ok v, session)
    | .error x => return (.error x.toFault, session)

end Evaluator

end RouteScript
