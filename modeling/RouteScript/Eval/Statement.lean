import RouteScript.Eval.Expression
import RouteScript.Syntax.Program

/-!
# Statements

The effects of statements, and the statements of whole scripts: the declarations of a script are
registered before its other statements run.
-/

namespace RouteScript.Evaluator

open Script

/-! ## Declarations -/

def declareClass (decl : ClassDecl) : Script Unit := do
  let classes ← ofExcept ((← store).classes.register decl)
  modifyStore fun s => { s with classes }

def declareFunction (decl : FunctionDecl) : Script Unit :=
  modifyStore fun s => { s with functions := Dict.insert decl.name decl s.functions }

def declareAll : Block → Script Unit
  | [] => return ()
  | .classDef decl :: rest => do
    declareClass decl
    declareAll rest
  | .functionDef decl :: rest => do
    declareFunction decl
    declareAll rest
  | _ :: rest => declareAll rest

/-! ## Loops -/

def goesOn : Except Signal Value → Script Bool
  | .ok _ | .error .continued => return true
  | .error .broken => return false
  | .error x => signal x

def round (ev : Evaluator) (body : Block) : Script Bool := do
  goesOn (← (ev.block body).capture)

def visit (ev : Evaluator) (key : Option String) (value : String) (body : Block)
    (entry : Value × Value) : Script Bool := do
  if let some key := key then assignVariable key entry.1
  assignVariable value entry.2
  ev.round body

def numbered (items : List Value) : List (Value × Value) :=
  (items.zipIdx).map fun (v, i) => (.int (Int64.ofNat i), v)

def keyed (entries : Dict Value) : List (Value × Value) :=
  entries.map fun (key, v) => (.text key, v)

/-- Run a loop over the entries of a value. A channel gives its values as they come. -/
def forEach (ev : Evaluator) (source : Value) (key : Option String) (value : String)
    (body : Block) : Script Unit :=
  let visitAll := forWhile (ev.visit key value body)
  match source with
  | .channel id =>
    let next (i : Int64) : Script (Option Int64) := do
      match ← receive id with
      | none => return none
      | some item =>
        if ← ev.visit key value body (.int i, item) then return some (i + 1) else return none
    iterate ev.rounds next 0
  | .array items => visitAll (numbered items)
  | .map entries => visitAll (keyed entries)
  | .object ref => do visitAll (keyed ((← store).fields ref))
  | .nil => return ()
  | other => fail (.invalid (.iteration other.kind))

/-! ## Choices -/

def selectCase (ev : Evaluator) (subject : Value) :
    List (Expr × Block) → Script (Option Block)
  | [] => return none
  | (e, body) :: rest => do
    let v ← ev.expr e
    if v.looseEq subject then return some body else ev.selectCase subject rest

def runCase (ev : Evaluator) (body : Block) : Script Value := do
  match ← (ev.block body).capture with
  | .error .broken => return .nil
  | outcome => release outcome

def guarded (ev : Evaluator) (body : Block) (name : String) (handler : Block) :
    Script Value := do
  match ← (ev.block body).capture with
  | .ok v => return v
  | .error x =>
    match x.caught? with
    | none => signal x
    | some v =>
      modifyScope (·.declare name v none)
      ev.block handler

/-! ## Loading scripts -/

def candidates (path : String) (t : Task) (s : Store) : List String :=
  let names := if Path.hasExtension path then [path] else [path, path ++ ".joss"]
  let bases := t.directory.toList ++ [Path.ofNames s.directory]
  bases.flatMap fun base => names.map (Path.join base)

def globalCandidates (t : Task) (s : Store) : List String :=
  (Path.ancestors (t.directory.getD (Path.ofNames s.directory))).map fun directory =>
    Path.join (Path.join directory "config") "global.joss"

def locate? (path : String) (t : Task) (s : Store) : Option (List String) :=
  let found := if path = "global" then globalCandidates t s else candidates path t s
  match found.find? (s.files.isFile s.directory) with
  | none => none
  | some candidate => (s.files.resolve s.directory candidate).toOption

def readScript (path : String) (place : List String) (s : Store) : Except Fault Block :=
  match s.files.textAt place with
  | .error problem => .error (.load path (.unreadable problem))
  | .ok source =>
    match Program.ofSource source with
    | .error diagnostics => .error (.load path (.malformed diagnostics))
    | .ok program => .ok program.statements

/-- Load a script. Each script is loaded once only, and while it runs its own directory counts. -/
def load (ev : Evaluator) (path : String) : Script Unit := do
  let s ← store
  let t ← task
  match locate? path t s with
  | none => fail (.load path .notFound)
  | some place =>
    unless s.loaded.contains place do
      modifyStore fun s => { s with loaded := place :: s.loaded }
      let body ← ofExcept (readScript path place s)
      modifyTask fun t => { t with directory := some (Path.ofNames place.dropLast) }
      let outcome ← (ev.run (.load place body)).capture
      modifyTask ({ · with directory := t.directory })
      let _ ← release outcome

/-! ## Statements -/

def statement (ev : Evaluator) : Stmt → Script Value
  | .declare typeName name value => do
    let tag := Tag.ofName typeName
    let value ← match value with
      | some e => ev.expr e
      | none => pure tag.zero
    declareVariable name tag value
    return value
  | .classDef decl => do
    declareClass decl
    return .nil
  | .functionDef decl => do
    declareFunction decl
    return .nil
  | .forEach iterable key value body => do
    let source ← ev.expr iterable
    ev.forEach source key value body
    return .nil
  | .whileLoop condition body => do
    repeatWhile ev.rounds do
      if ← ev.test condition then ev.round body else return false
    return .nil
  | .doWhile body condition => do
    repeatWhile ev.rounds do
      if ← ev.round body then ev.test condition else return false
    return .nil
  | .tryCatch body name handler => ev.guarded body name handler
  | .branch condition consequence alternative => do
    if ← ev.test condition then ev.block consequence
    else
      match alternative with
      | some body => ev.block body
      | none => return .nil
  | .select subject cases fallback => do
    let subject ← ev.expr subject
    match (← ev.selectCase subject cases).or fallback with
    | some body => ev.runCase body
    | none => return .nil
  | .raise e => do
    let v ← ev.expr e
    signal (.thrown v)
  | .returns none => signal (.returned .nil)
  | .returns (some e) => do
    let v ← ev.expr e
    signal (.returned v)
  | .breaks => signal .broken
  | .continues => signal .continued
  | .load path => do
    ev.load path
    return .nil
  | .package _ => return .nil
  | .echo e => do
    let v ← ev.expr e
    write (v.display ++ "\n")
    return .nil
  | .expr e => ev.expr e

/-- Carry out statements in order; `last` is the value of the one before them. -/
def statements (ev : Evaluator) (last : Value) : Block → Script Value
  | [] => return last
  | stmt :: rest => do
    let v ← ev.statement stmt
    ev.statements v rest

def isDeclaration : Stmt → Bool
  | .classDef _ | .functionDef _ => true
  | _ => false

/-- Carry out the statements of a script that are not declarations. The result tells whether a
`return` has stopped the script. Signals of loops are passed over. -/
def topLevel (ev : Evaluator) (last : Value) : Block → Script (Value × Bool)
  | [] => return (last, false)
  | stmt :: rest => do
    if isDeclaration stmt then ev.topLevel last rest
    else
      match ← (ev.statement stmt).capture with
      | .ok v => ev.topLevel v rest
      | .error (.returned v) => return (v, true)
      | .error .broken | .error .continued => ev.topLevel last rest
      | .error x => fail x.toFault

def script (ev : Evaluator) (body : Block) : Script (Value × Bool) := do
  declareAll body
  ev.topLevel .nil body

end RouteScript.Evaluator
