import RouteScript.Dispatch
import RouteScript.Settings.EnvFile
import RouteScript.Task.Schedule

/-!
# Interpreters

An interpreter runs scripts, serves requests to the routes that they add, and gives its host access
to globals and to the environment. Everything that a script leaves behind is there for the next one.
-/

namespace RouteScript

def HostHandler.none : HostHandler := fun _ className _ _ _ =>
  Script.fail (.missingService className)

structure Interpreter where
  task : Task := {}
  store : Store := {}
  /-- The tasks that wait. -/
  pool : List Sleeper := []
  host : HostHandler := .none
  /-- How many jobs may stand inside each other, and how many rounds a loop may have. -/
  levels : Nat := 1000000000000000

inductive Report where
  | value (value : Value)
  | fault (fault : Fault)
  | malformed (diagnostics : List Diagnostic)
  /-- The script waits for something that never happens, or takes too many steps. -/
  | unfinished

namespace Report

def ofOutcome : Except Signal Value → Report
  | .ok v => .value v
  | .error x => .fault x.toFault

def failure? : Report → Option (Code × String)
  | .fault f => some (f.code, f.message)
  | .malformed diagnostics => some (.malformed, Diagnostic.messages diagnostics)
  | _ => none

end Report

namespace Interpreter

def create (settings : Settings) : Interpreter where
  task := { directory := settings.baseDirectory }
  store := {
    settings
    classes := Service.hostedClasses.foldl (fun t name => t.addHosted name) {}
    services := Service.registry }

def evaluator (i : Interpreter) : Evaluator := .withLevels i.host i.levels

def run? {α : Type} (i : Interpreter) (script : Script α) :
    Option (Except Signal α × Interpreter) :=
  (i.evaluator.settle? i.levels i.pool (script i.task i.store)).map fun settled =>
    (settled.outcome,
      { i with task := settled.task, store := settled.store, pool := settled.pool })

def run (i : Interpreter) (script : Script Value) : Report × Interpreter :=
  match i.run? script with
  | some (outcome, i) => (.ofOutcome outcome, i)
  | none => (.unfinished, i)

def execute (p : Program) (i : Interpreter) : Report × Interpreter :=
  i.run (i.evaluator.program p)

def runSource (source : String) (i : Interpreter) : Report × Interpreter :=
  match Program.ofSource source with
  | .error diagnostics => (.malformed diagnostics, i)
  | .ok p => i.execute p

def setDirectory (directory : String) (i : Interpreter) : Interpreter :=
  { i with task := { i.task with directory := some directory } }

def runFile (path : String) (i : Interpreter) : Report × Interpreter :=
  match i.store.files.read i.store.directory path with
  | .error problem => (.fault (.load path (.unreadable problem)), i)
  | .ok source => ((Path.parent? path).elim i i.setDirectory).runSource source

def invoke (callee : Value) (args : List Value) (i : Interpreter) : Report × Interpreter :=
  i.run (i.evaluator.run (.call callee args)).settle

def dispatch (method path : String) (request session : Dict Value) (i : Interpreter) :
    Report × Dict Value × Interpreter :=
  match i.run? (i.evaluator.dispatch method path request session) with
  | some (.ok (.ok v, session), i) => (.value v, session, i)
  | some (.ok (.error fault, session), i) => (.fault fault, session, i)
  | some (.error x, i) => (.fault x.toFault, session, i)
  | none => (.unfinished, session, i)

def global? (name : String) (i : Interpreter) : Option Value := i.task.scope.global? name

def setGlobal (name : String) (value : Value) (i : Interpreter) : Interpreter :=
  { i with task := { i.task with scope := i.task.scope.setGlobal name value } }

def environment? (name : String) (i : Interpreter) : Option String :=
  Dict.get? name i.store.environment

def setEnvironment (name value : String) (i : Interpreter) : Interpreter :=
  { i with store := { i.store with
      environment := Dict.insert name value i.store.environment } }

def loadEnvironment (path : String) (i : Interpreter) :
    Except FileProblem (Nat × Interpreter) := do
  let entries := EnvFile.read (← i.store.files.read i.store.directory path)
  return (entries.length,
    { i with store := { i.store with environment := Dict.merge i.store.environment entries } })

def registerHosted (className : String) (i : Interpreter) : Interpreter :=
  { i with store := { i.store with
      classes := i.store.classes.addHosted className
      services := Dict.insert className .external i.store.services } }

def takeOutput (i : Interpreter) : String × Interpreter :=
  (i.store.output, { i with store := { i.store with output := "" } })

end Interpreter

end RouteScript
