import RouteScript.Text.Ascii
import RouteScript.Text.Blank
import RouteScript.Text.Split
import RouteScript.Value.Basic

/-!
# Routes

A route says which handler serves the requests with a method and a path. Segments of its path in
braces are parameters. Every route carries the middleware that was open when it was added.
-/

namespace RouteScript

/-- A route. Its handler is a text `Controller@method` or something that can be called. -/
structure Route where
  method : String
  path : String
  handler : Value
  middleware : List String

namespace Route

/-- A path without blanks around it and without slashes at its end, starting with a slash. -/
def normalize (path : String) : String :=
  match Text.dropEndWhile (· == '/') (Text.trimList path.toList) with
  | [] => "/"
  | '/' :: rest => String.ofList ('/' :: rest)
  | l => String.ofList ('/' :: l)

def isParameter (segment : List Char) : Bool :=
  segment.head? == some '\x7b' && segment.getLast? == some '\x7d'

/-- The segments that stand for the parameters, if all other segments agree. -/
def matchSegments? : List (List Char) → List (List Char) → Option (List String)
  | [], [] => some []
  | want :: wants, got :: gots =>
    if isParameter want then
      if got = [] then none else (matchSegments? wants gots).map (String.ofList got :: ·)
    else if want = got then matchSegments? wants gots
    else none
  | _, _ => none

def match? (pattern path : String) : Option (List String) :=
  matchSegments? (Text.splitList ['/'] pattern.toList) (Text.splitList ['/'] path.toList)

end Route

/-- The routes in the order in which they were added first, and the open middleware. -/
structure RouteTable where
  routes : List Route := []
  middleware : List String := []

namespace RouteTable

def size (t : RouteTable) : Nat := t.routes.length

/-- Put a route in the place of the one with the same method and path, or behind all others. -/
def place (route : Route) : List Route → List Route
  | [] => [route]
  | r :: rest =>
    if r.method = route.method ∧ r.path = route.path then route :: rest
    else r :: place route rest

def add (method path : String) (handler : Value) (t : RouteTable) : RouteTable :=
  { t with
    routes := place ⟨Text.upper method, Route.normalize path, handler, t.middleware⟩ t.routes }

def push (name : String) (t : RouteTable) : RouteTable :=
  { t with middleware := t.middleware ++ [name] }

def pop (t : RouteTable) : RouteTable := { t with middleware := t.middleware.dropLast }

/-- The route for a request and its parameters. A route with the very path wins over patterns, and
earlier patterns win over later ones. -/
def find? (method path : String) (t : RouteTable) : Option (Route × List String) :=
  let path := Route.normalize path
  let candidates := t.routes.filter (·.method == Text.upper method)
  match candidates.find? (·.path == path) with
  | some route => some (route, [])
  | none => candidates.findSome? fun route => (Route.match? route.path path).map (route, ·)

end RouteTable

end RouteScript
