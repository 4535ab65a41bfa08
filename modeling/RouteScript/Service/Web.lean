import RouteScript.Service.Argument
import RouteScript.Task.Script

/-!
# Requests, sessions and responses

While a request is served, two globals hold the request and the session as objects. Responses are
maps that say what to send; a redirect is an object, so that scripts can add to it.
-/

namespace RouteScript.Service

def requestGlobal : String := "__request"

def sessionGlobal : String := "__session"

def injected? (name : String) (t : Task) : Option ObjectRef :=
  match t.scope.global? name with
  | some (.object ref) => some ref
  | _ => none

def onRequest (method : String) (args : List Value) : Script Value := do
  let m : Method := ⟨"Request", method⟩
  let s ← Script.store
  let fields := (injected? requestGlobal (← Script.task)).elim [] s.fields
  match method with
  | "constructor" => return .nil
  | "input" =>
    let key ← m.text args 0
    return (Dict.get? key fields).getD (args[1]?.getD .nil)
  | "has" =>
    let key ← m.text args 0
    return .bool (Dict.contains key fields)
  | "all" => return .map fields
  | _ => m.unknown

def withoutSession (method : String) : Value :=
  match method with
  | "all" => .map []
  | "has" => .bool false
  | _ => .nil

def onSession (method : String) (args : List Value) : Script Value := do
  let m : Method := ⟨"Session", method⟩
  if method = "constructor" then return .nil
  match injected? sessionGlobal (← Script.task) with
  | none => return withoutSession method
  | some current =>
    let fields := (← Script.store).fields current
    match method with
    | "get" =>
      let key ← m.text args 0
      return (Dict.get? key fields).getD (args[1]?.getD .nil)
    | "put" =>
      let key ← m.text args 0
      let value ← m.argument args 1
      Script.modifyStore (·.setField current key value)
      return .nil
    | "has" =>
      let key ← m.text args 0
      return .bool (Dict.contains key fields)
    | "forget" =>
      let key ← m.text args 0
      Script.modifyStore (·.modifyFields current (Dict.erase key))
      return .nil
    | "all" => return .map fields
    | _ => m.unknown

def newRedirect (url : String) (flash : Dict Value) (s : Store) : Value × Store :=
  let (ref, s) := s.newObject "RedirectResponse"
    [("_type", .text "REDIRECT"), ("cookies", .map []), ("flash", .map flash), ("url", .text url)]
  (.object ref, s)

def referer (t : Task) (s : Store) : String :=
  match (injected? requestGlobal t).bind fun ref => Dict.get? "_referer" (s.fields ref) with
  | some (.text url) => if url = "" then "/" else url
  | _ => "/"

def redirectBack : Script Value := do
  let t ← Script.task
  Script.update fun s => newRedirect (referer t s) [] s

def onResponse (method : String) (args : List Value) : Script Value := do
  let m : Method := ⟨"Response", method⟩
  match method with
  | "constructor" => return .nil
  | "json" =>
    let data ← m.argument args 0
    return .map [("_type", .text "JSON"), ("data", data),
      ("status_code", args[1]?.getD (.int 200))]
  | "raw" =>
    let data ← m.argument args 0
    let descriptor : Dict Value := [("_type", .text "RAW"),
      ("content_type", args[2]?.getD (.text "text/plain")), ("data", data),
      ("status_code", args[1]?.getD (.int 200))]
    if 3 < args.length then
      let headers ← m.map (← Script.store).fields args 3
      return .map (Dict.insert "headers" (.map headers) descriptor)
    else return .map descriptor
  | "redirect" =>
    let url ← m.text args 0
    Script.update (newRedirect url [])
  | "back" => redirectBack
  | _ => m.unknown

def onRedirect (method : String) (args : List Value) : Script Value := do
  let m : Method := ⟨"Redirect", method⟩
  match method with
  | "constructor" => return .nil
  | "to" =>
    let url ← m.text args 0
    Script.update (newRedirect url [])
  | "back" => redirectBack
  | _ => m.unknown

def addTo (m : Method) (bucket : String) (ref : ObjectRef) (args : List Value) : Script Value := do
  let key ← m.text args 0
  let value ← m.argument args 1
  let entries := match Dict.get? bucket ((← Script.store).fields ref) with
    | some (.map entries) => entries
    | _ => []
  Script.modifyStore (·.setField ref bucket (.map (Dict.insert key value entries)))
  return .object ref

def onRedirectResponse (ref : ObjectRef) (method : String) (args : List Value) : Script Value :=
  let m : Method := ⟨"RedirectResponse", method⟩
  match method with
  | "constructor" => return .nil
  | "with" => addTo m "flash" ref args
  | "withCookie" => addTo m "cookies" ref args
  | _ => m.unknown

end RouteScript.Service
