import RouteScript.Channel
import RouteScript.ClassTable
import RouteScript.File.Tree
import RouteScript.Route
import RouteScript.Scope
import RouteScript.Settings.Basic
import RouteScript.Task.Machine
import RouteScript.Task.Signal
import RouteScript.Value.Json

/-!
# Tasks and their store

A task has variables of its own. All tasks of an interpreter share one store: declarations, routes,
the console, and the states of objects, channels and futures.
-/

namespace RouteScript

/-- What belongs to one task. -/
structure Task where
  scope : Scope := {}
  /-- The number of calls being carried out. -/
  calls : Nat := 0
  /-- The directory of the script that is running. -/
  directory : Option String := none

def Task.fork (t : Task) : Task := { t with scope := t.scope.fork, calls := 0 }

/-- What a new task works on: an expression, whose value is called if it can be, or a call. -/
inductive Work where
  | evaluate (expr : Expr)
  | call (callee : Value)

structure Spawned where
  future : Nat
  task : Task
  work : Work

inductive Service where
  | stack | queue | math | system | log | request | session | response | redirect
  | redirectResponse | router
  /-- By a handler of the host. -/
  | external
  deriving DecidableEq

/-- What all tasks share. -/
structure Store where
  settings : Settings := {}
  classes : ClassTable := {}
  functions : Dict FunctionDecl := []
  services : Dict Service := []
  routes : RouteTable := {}
  environment : Dict String := []
  /-- The places of the scripts that have been loaded. -/
  loaded : List (List String) := []
  /-- The places of the scripts whose statements have been started by loading them, the last one
  first. It is a record of what has happened, which no rule reads. -/
  executed : List (List String) := []
  output : String := ""
  input : List UInt8 := []
  /-- The fields of the objects. -/
  objects : Array (Dict Value) := #[]
  channels : Array Channel := #[]
  /-- The outcomes of the futures that are known. -/
  futures : Array (Option (Except Signal Value)) := #[]
  spawned : List Spawned := []
  files : FileTree := {}
  /-- The working directory. -/
  directory : List String := []
  machine : Machine := .plain
  /-- How often the machine has been asked. -/
  asked : Nat := 0

namespace Store

def fields (s : Store) (ref : ObjectRef) : Dict Value := s.objects.getD ref.id []

def modifyFields (ref : ObjectRef) (f : Dict Value → Dict Value) (s : Store) : Store :=
  { s with objects := s.objects.modify ref.id f }

def setField (ref : ObjectRef) (name : String) (value : Value) (s : Store) : Store :=
  s.modifyFields ref (Dict.insert name value)

def newObject (className : String) (fields : Dict Value) (s : Store) : ObjectRef × Store :=
  (⟨s.objects.size, className⟩, { s with objects := s.objects.push fields })

def newChannel (capacity : Nat) (s : Store) : Value × Store :=
  (.channel s.channels.size, { s with channels := s.channels.push { capacity := capacity } })

def newFuture (outcome : Option (Except Signal Value)) (s : Store) : Nat × Store :=
  (s.futures.size, { s with futures := s.futures.push outcome })

def settleFuture (future : Nat) (outcome : Except Signal Value) (s : Store) : Store :=
  { s with futures := s.futures.setIfInBounds future (some outcome) }

def spawn (task : Task) (work : Work) (s : Store) : Value × Store :=
  let (future, s) := s.newFuture none
  (.future future, { s with spawned := s.spawned ++ [⟨future, task, work⟩] })

def ask {α : Type} (question : Machine → Nat → α) (s : Store) : α × Store :=
  (question s.machine s.asked, { s with asked := s.asked + 1 })

def start (place : List String) (s : Store) : Store := { s with executed := place :: s.executed }

def write (text : String) (s : Store) : Store := { s with output := s.output ++ text }

def isSet (setting : Settings → Bool) (name : String) (s : Store) : Bool :=
  setting s.settings || (Dict.get? name s.environment).any isFlagSet

/-- The JSON form of a value. Objects inside each other are followed as far as there are objects. -/
def toJson (s : Store) (v : Value) : Json := v.toJson s.fields (s.objects.size + 1)

def accepts (s : Store) (tag : Tag) (value : Value) : Bool :=
  match tag.accepts? value with
  | some accepted => accepted
  | none =>
    match tag, value with
    | .instance className, .object ref => s.classes.isA ref.className className
    | _, _ => false

def check (s : Store) (name : String) (tag : Tag) (value : Value) : Except Fault Unit :=
  if s.accepts tag value then .ok ()
  else .error (.typeMismatch name tag.name value.describe)

end Store

end RouteScript
