import RouteScript.Service.Argument
import RouteScript.Task.Script

/-!
# System

The environment, the log and the programs that scripts can run.
-/

namespace RouteScript.Service.System

def programArguments (m : Method) : Option Value → Except Fault (List String)
  | some (.array items) => .ok (items.map Value.display)
  | none | some .nil => .ok []
  | some v => m.refuse (.programArguments v.kind)

/-- What a program writes, the errors behind the output; one that cannot be started writes
nothing. -/
def programOutput (program : String) (args : List String) (m : Machine) (turn : Nat) : Value :=
  .text ((m.program turn program args).elim "" fun (output, errors) => output ++ errors)

/-- A variable of the environment, or else the second argument, or else an empty text. -/
def environment (s : Store) (name : String) (args : List Value) : Value :=
  match Dict.get? name s.environment with
  | some value => .text value
  | none => args[1]?.getD (.text "")

def call (method : String) (args : List Value) : Script Value :=
  let m : Method := ⟨"System", method⟩
  match method with
  | "constructor" => return .nil
  | "env" => do
    let name ← m.text args 0
    return environment (← Script.store) name args
  | "log" => do
    let v ← m.argument args 0
    Script.write ("[System Log] " ++ v.display ++ "\n")
    return .nil
  | "Run" => do
    let program ← m.text args 0
    if (← Script.store).isSet (·.allowPrograms) "ALLOW_SYSTEM_RUN" then
      let arguments ← programArguments m args[1]?
      Script.update (Store.ask (programOutput program arguments))
    else return .text ""
  | _ => m.unknown

/-- The methods of the log. What is logged is not part of the output. -/
def log (method : String) : Script Value :=
  if ["constructor", "info", "warning", "warn", "error", "debug"].contains method then
    return .nil
  else Method.unknown ⟨"Log", method⟩

end RouteScript.Service.System
