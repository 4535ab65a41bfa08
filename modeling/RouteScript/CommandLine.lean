import RouteScript.Interpreter
import RouteScript.Settings.Load
import RouteScript.Syntax.Outline

/-!
# The command line

Scripts are run, checked or shown as tokens. What a command writes and how it exits is a function of
its arguments and of what it finds: files, input and variables of the process.
-/

namespace RouteScript.CommandLine

/-! ## Arguments -/

structure RunOptions where
  script : Option String := none
  printTree : Bool := false
  trace : Bool := false
  envFile : Option String := none
  settingsFile : Option String := none
  /-- Help is asked for; what stands behind that does not count. -/
  help : Bool := false

inductive Command where
  | run (script : String) (options : RunOptions)
  | check (script : String)
  | tokens (script : String)
  | help

def isOption (arg : String) : Bool :=
  match arg.toList with
  | '-' :: _ :: _ => true
  | _ => false

def isValue (arg : String) : Bool := arg != "" && !isOption arg

def isHelp (arg : String) : Bool := arg == "--help" || arg == "-h"

def RunOptions.withScript? (path : String) (o : RunOptions) : Option RunOptions :=
  if path != "" && o.script.isNone then some { o with script := some path } else none

def values? : List String → RunOptions → Option RunOptions
  | [], o => some o
  | arg :: rest, o => (o.withScript? arg).bind (values? rest)

def inlineValue? (option arg : String) : Option String :=
  let start := option.toList ++ ['=']
  if start.isPrefixOf arg.toList then some (String.ofList (arg.toList.drop start.length)) else none

def RunOptions.withEnvFile? (path : String) (o : RunOptions) : Option RunOptions :=
  if path != "" && o.envFile.isNone then some { o with envFile := some path } else none

def RunOptions.withSettingsFile? (path : String) (o : RunOptions) : Option RunOptions :=
  if path != "" && o.settingsFile.isNone then some { o with settingsFile := some path } else none

/-- The options of `run` in its arguments, which are read up to the first one that is refused or
asks for help. -/
def runOptions? : List String → RunOptions → Option RunOptions
  | [], o => some o
  | "--" :: rest, o => values? rest o
  | "--print-ast" :: rest, o =>
    if o.printTree then none else runOptions? rest { o with printTree := true }
  | "--trace" :: rest, o => if o.trace then none else runOptions? rest { o with trace := true }
  | "--env-file" :: path :: rest, o =>
    if isValue path then (o.withEnvFile? path).bind (runOptions? rest) else none
  | "--config" :: path :: rest, o =>
    if isValue path then (o.withSettingsFile? path).bind (runOptions? rest) else none
  | arg :: rest, o =>
    match inlineValue? "--env-file" arg, inlineValue? "--config" arg with
    | some path, _ => (o.withEnvFile? path).bind (runOptions? rest)
    | _, some path => (o.withSettingsFile? path).bind (runOptions? rest)
    | none, none =>
      if isHelp arg then some { o with help := true }
      else if isOption arg then none
      else (o.withScript? arg).bind (runOptions? rest)

/-- The command of `run` with its options. The script must be there. -/
def Command.ofRunOptions? (o : RunOptions) : Option Command :=
  if o.help then some .help else o.script.map (.run · o)

def Command.ofScript? (command : String → Command) : List String → Option Command
  | [] => none
  | ["--", path] => if path == "" then none else some (command path)
  | arg :: rest =>
    if isHelp arg then some .help
    else if isValue arg then
      match rest with
      | [] | ["--"] => some (command arg)
      | next :: _ => if isHelp next then some .help else none
    else none

def Command.ofTopic? : List String → Option Command
  | [] => some .help
  | [topic] => if ["run", "check", "tokens", "help"].contains topic then some .help else none
  | _ => none

def Command.ofArguments? : List String → Option Command
  | "run" :: args => (runOptions? args {}).bind ofRunOptions?
  | "check" :: args => ofScript? .check args
  | "tokens" :: args => ofScript? .tokens args
  | "help" :: topics => ofTopic? topics
  | arg :: _ => if isHelp arg then some .help else none
  | [] => none

/-! ## Results -/

structure Exit where
  code : Nat := 0
  output : String := ""
  errors : String := ""

structure Surroundings where
  files : FileTree := {}
  /-- The working directory. -/
  directory : List String := []
  input : List UInt8 := []
  /-- The variables of the process. -/
  process : Dict String := []

def usage : String :=
  "Usage: joss run <SCRIPT> [--print-ast] [--env-file <FILE>] [--config <FILE>] [--trace]\n" ++
  "       joss check <SCRIPT>\n" ++
  "       joss tokens <SCRIPT>\n"

def failed (output message : String) : Exit := ⟨1, output, "error: " ++ message ++ "\n"⟩

def faulty (output : String) (code : Code) (message : String) : Exit :=
  ⟨1, output, "error[" ++ code.name ++ "]: " ++ message ++ "\n"⟩

def malformed (diagnostics : List Diagnostic) : Exit :=
  faulty "" .malformed (Diagnostic.messages diagnostics)

def unreadable (path : String) (problem : FileProblem) : String :=
  "failed to read " ++ path ++ ": " ++ problem.message

def unreadableCaused (path : String) (problem : FileProblem) : String :=
  unreadable path problem ++ ": " ++ problem.message

def settingsMessage : SettingsProblem → String
  | .unreadable path problem => unreadableCaused path problem
  | .malformed path => "invalid configuration in " ++ path

def directoryOf (path : String) : String :=
  match Path.parent? path with
  | none | some "" => "."
  | some directory => directory

/-! ## Commands -/

def padLeft (width : Nat) (s : String) : String :=
  String.ofList (List.replicate (width - s.length) ' ') ++ s

def padRight (width : Nat) (s : String) : String :=
  s ++ String.ofList (List.replicate (width - s.length) ' ')

def tokenLine (t : Token) : String :=
  padLeft 4 (toString t.position.line) ++ ":" ++ padRight 4 (toString t.position.column) ++ " " ++
    t.lexeme.display ++ "\n"

def tokens (s : Surroundings) (script : String) : Exit :=
  match s.files.read s.directory script with
  | .error problem => failed "" (unreadable script problem)
  | .ok source =>
    let shown := (Token.tokenize source).filter fun t => !t.lexeme.isNewline
    { output := String.join (shown.map tokenLine) }

def check (s : Surroundings) (script : String) : Exit :=
  match s.files.read s.directory script with
  | .error problem => failed "" (unreadable script problem)
  | .ok source =>
    match Program.ofSource source with
    | .error diagnostics => malformed diagnostics
    | .ok p =>
      { output := script ++ ": ok (" ++ toString p.statements.length ++
          " top-level statements)\n" }

/-- The environment file of a script: the given one, the one of the settings, or the one beside the
script if it is there. -/
def envFile? (s : Surroundings) (o : RunOptions) (settings : Settings) (directory : String) :
    Option String :=
  let beside := Path.join directory "env.joss"
  (o.envFile.or settings.envFile).or
    (if s.files.isFile s.directory beside then some beside else none)

def fullPath (s : Surroundings) (script : String) : String :=
  match s.files.resolve s.directory script with
  | .ok place => Path.ofNames place
  | .error _ => script

def execute (s : Surroundings) (script : String) (o : RunOptions) (settings : Settings)
    (p : Program) (shown : String) : Exit :=
  let directory := directoryOf script
  let i := Interpreter.create { settings with baseDirectory := some directory }
  let i := { i with store := { i.store with
    files := s.files, directory := s.directory, input := s.input } }
  let loaded : Except String Interpreter :=
    match envFile? s o settings directory with
    | none => .ok i
    | some path =>
      match i.loadEnvironment path with
      | .ok (_, i) => .ok i
      | .error problem =>
        .error ("failed to load " ++ path ++ ": " ++ unreadableCaused path problem)
  match loaded with
  | .error message => failed shown message
  | .ok i =>
    let (report, i) := (i.setDirectory (directoryOf (fullPath s script))).execute p
    let output := shown ++ i.store.output
    match report with
    | .value _ => { output := output }
    | .unfinished => failed output "the script does not finish"
    | report =>
      match report.failure? with
      | some (code, message) => faulty output code message
      | none => { output := output }

def run (s : Surroundings) (script : String) (o : RunOptions) : Exit :=
  match Settings.load s.files s.directory s.process o.settingsFile (directoryOf script) with
  | .error problem =>
    failed "" ("failed to load runtime configuration: " ++ settingsMessage problem)
  | .ok settings =>
    match s.files.read s.directory script with
    | .error problem => failed "" (unreadable script problem)
    | .ok source =>
      match Program.ofSource source with
      | .error diagnostics => malformed diagnostics
      | .ok p =>
        let shown := if o.printTree then p.outline ++ "\n" else ""
        execute s script o { settings with trace := o.trace } p shown

def carryOut (s : Surroundings) (args : List String) : Exit :=
  match Command.ofArguments? args with
  | none => ⟨2, "", usage⟩
  | some .help => { output := usage }
  | some (.run script o) => run s script o
  | some (.check script) => check s script
  | some (.tokens script) => tokens s script

end RouteScript.CommandLine
