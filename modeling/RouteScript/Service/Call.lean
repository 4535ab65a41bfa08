import RouteScript.Service.Collection
import RouteScript.Service.Math
import RouteScript.Service.Router
import RouteScript.Service.System
import RouteScript.Service.Web

/-!
# Hosted classes

Which classes are hosted from the start, and which of them have a service.
-/

namespace RouteScript.Service

def hostedClasses : List String :=
  ["Stack", "Queue", "GranMySQL", "GranDB", "Auth", "System", "SmtpClient", "Cron", "Task", "View",
   "Router", "Request", "Response", "RedirectResponse", "Redirect", "Session", "Security", "Server",
   "Log", "WebSocket", "Redis", "Cache", "Math", "Schema", "Blueprint", "Migration"]

def registry : Dict Service :=
  Dict.ofList [("Stack", .stack), ("Queue", .queue), ("Math", .math), ("System", .system),
    ("Log", .log), ("Request", .request), ("Session", .session), ("Response", .response),
    ("Redirect", .redirect), ("RedirectResponse", .redirectResponse), ("Router", .router)]

def call (ev : Evaluator) (service : Service) (className : String) (ref : ObjectRef)
    (method : String) (args : List Value) : Script Value :=
  let invoke : Invoke := fun callee args => (ev.run (.call callee args)).settle
  match service with
  | .stack => onStack ref method args
  | .queue => onQueue ref method args
  | .math => Math.call method args
  | .system => System.call method args
  | .log => System.log method
  | .request => onRequest method args
  | .session => onSession method args
  | .response => onResponse method args
  | .redirect => onRedirect method args
  | .redirectResponse => onRedirectResponse ref method args
  | .router => onRouter invoke method args
  | .external => (ev.host invoke className ref method args).settle

end RouteScript.Service
