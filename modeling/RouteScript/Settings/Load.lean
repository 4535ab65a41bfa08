import RouteScript.Dict
import RouteScript.File.Tree
import RouteScript.Settings.Basic
import RouteScript.Toml.Reader

/-!
# Loading settings

Settings are read from the table `runtime` of a file, which is given or found beside the script. Two
variables of the process then have the last word.
-/

namespace RouteScript

inductive SettingsProblem where
  | unreadable (path : String) (problem : FileProblem)
  | malformed (path : String)

namespace Settings

def fileName : String := "joss.toml"

def switch? : Toml → Option Bool
  | .bool b => some b
  | _ => none

def count? : Toml → Option Nat
  | .int n => if 0 ≤ n then some n.toNatClampNeg else none
  | _ => none

def path? : Toml → Option String
  | .text s => some s
  | _ => none

def part? {α : Type} (read : Toml → Option α) (fallback : α) : Option Toml → Option α
  | none => some fallback
  | some t => read t

def ofParts? (get : String → Nat → Option Toml) : Option Settings := do
  let initial : Settings := {}
  let trace ← part? switch? initial.trace (get "trace" 0)
  let nonInteractive ← part? switch? initial.nonInteractive (get "non_interactive" 1)
  let allowPrograms ← part? switch? initial.allowPrograms (get "allow_system_run" 2)
  let callLimit ← part? count? initial.callLimit (get "max_call_depth" 3)
  let baseDirectory ← part? (path? · |>.map some) none (get "base_dir" 4)
  let envFile ← part? (path? · |>.map some) none (get "env_file" 5)
  some { trace, nonInteractive, allowPrograms, callLimit, baseDirectory, envFile }

/-- The settings of a document. They are a table, or their parts in order. A date counts as a table
without any of the parts. -/
def ofToml? : Toml → Option Settings
  | .table _ entries =>
    match Toml.lookup? "runtime" entries with
    | none => some {}
    | some (.table _ inner) => ofParts? fun name _ => Toml.lookup? name inner
    | some (.array items) | some (.tables items) => ofParts? fun _ place => items[place]?
    | some .moment => some {}
    | some _ => none
  | _ => none

def ofFile (files : FileTree) (directory : List String) (path : String) :
    Except SettingsProblem Settings :=
  match files.read directory path with
  | .error problem => .error (.unreadable path problem)
  | .ok source =>
    match (Toml.read? source).bind ofToml? with
    | some s => .ok s
    | none => .error (.malformed path)

def withProcess (process : Dict String) (s : Settings) : Settings :=
  { s with
    nonInteractive := (Dict.get? "NON_INTERACTIVE" process).elim s.nonInteractive isFlagSet
    allowPrograms := (Dict.get? "ALLOW_SYSTEM_RUN" process).elim s.allowPrograms isFlagSet }

/-- Load the settings from the given file, or from the one in `searchDirectory` if it is there. -/
def load (files : FileTree) (directory : List String) (process : Dict String)
    (path : Option String) (searchDirectory : String) : Except SettingsProblem Settings := do
  let found := Path.join searchDirectory fileName
  let file := path.or (if files.isFile directory found then some found else none)
  let s ← file.elim (.ok {}) (ofFile files directory)
  return s.withProcess process

end Settings

end RouteScript
