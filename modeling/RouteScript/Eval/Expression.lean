import RouteScript.Eval.Builtin
import RouteScript.Eval.Call
import RouteScript.Eval.Target
import RouteScript.Value.Operators

/-!
# Expressions

The values of expressions. Operands are evaluated from left to right; a value that is assigned is
evaluated before its target.
-/

namespace RouteScript.Evaluator

open Script

/-! ## Names and members -/

/-- What a name stands for: a variable, a function, a class, a console stream or a built-in
function, in this order. Any other name is nil. -/
def lookup (word : String) (t : Task) (s : Store) : Value :=
  match t.scope.get? word with
  | some v => v
  | none =>
    match Dict.get? word s.functions with
    | some decl => .function decl
    | none =>
      if s.classes.contains word then .classRef word
      else if word = "cout" then .stream .output
      else if word = "cin" then .stream .input
      else (Builtin.ofName? word).elim .nil .builtin

def readMember (ev : Evaluator) (object : Value) (property : String) : Script Value :=
  match object with
  | .object ref => do
    let s ← store
    match Dict.get? property (s.fields ref) with
    | some v => return v
    | none =>
      return (s.classes.resolve? ref.className property).elim .nil fun decl => .method decl ref
  | .classRef className => do
    let receiver ← ev.newObject className
    match (← store).classes.resolve? className property with
    | some decl => return .method decl receiver
    | none => fail (.undefinedMethod className property)
  | .map entries => return (Dict.get? property entries).getD .nil
  | .nil => return .nil
  | other => fail (.invalid (.readMember property other.kind))

/-! ## Calls -/

def callValue (ev : Evaluator) (callee : Value) (args : List Value) : Script Value := do
  match callee with
  | .function decl => ev.invokeFunction decl args (← scope).this
  | .method decl receiver => ev.callMethod decl receiver args
  | .builtin b => b.call args
  | other => fail (.notCallable other.kind)

/-- Call by name: a declared function, a built-in function, or what a variable holds. -/
def callNamed (ev : Evaluator) (word : String) (args : List Value) : Script Value := do
  match Dict.get? word (← store).functions with
  | some decl => ev.invokeFunction decl args none
  | none =>
    match Builtin.ofName? word with
    | some b => b.call args
    | none =>
      match (← scope).get? word with
      | some v => ev.callValue v args
      | none => fail (.undefinedFunction word)

def callMember (ev : Evaluator) (receiver : Value) (property : String) (args : List Value) :
    Script Value := do
  match receiver with
  | .object ref =>
    let s ← store
    match (Dict.get? property (s.fields ref)).filter Value.isCallable with
    | some v => ev.callValue v args
    | none =>
      match s.classes.resolve? ref.className property with
      | some decl => ev.callMethod decl ref args
      | none => fail (.undefinedMethod ref.className property)
  | .classRef className =>
    match (← store).classes.resolve? className property with
    | some decl =>
      let ref ← ev.newObject className
      ev.callMethod decl ref args
    | none => fail (.undefinedMethod className property)
  | .map entries =>
    match (Dict.get? property entries).filter Value.isCallable with
    | some v => ev.callValue v args
    | none => fail (.undefinedMethod "map" property)
  | .nil => fail (.invalid (.methodOnNil property))
  | other => fail (.undefinedMethod other.kind.name property)

def spawnExpr (arguments : List Expr) : Script Value :=
  match arguments with
  | [e] => spawn (.evaluate e)
  | l => fail (.invalid (.asyncArguments l.length))

/-- The value of a call. The argument of `async` is not evaluated here but by a new task. -/
def call (ev : Evaluator) (callee : Expr) (arguments : List Expr) : Script Value := do
  match callee with
  | .name word =>
    if word = "async" && !(← scope).contains word then spawnExpr arguments
    else
      let args ← ev.exprs arguments
      ev.callNamed word args
  | .member object property _ =>
    let receiver ← ev.expr object
    let args ← ev.exprs arguments
    ev.callMember receiver property args
  | other =>
    let callee ← ev.expr other
    let args ← ev.exprs arguments
    ev.callValue callee args

def pipe (ev : Evaluator) (input : Value) : Expr → Script Value
  | .name word => ev.callNamed word [input]
  | .call callee arguments => do
    let args ← ev.exprs arguments
    match callee with
    | .name word => ev.callNamed word (input :: args)
    | other =>
      let callee ← ev.expr other
      ev.callValue callee (input :: args)
  | other => do
    let callee ← ev.expr other
    ev.callValue callee [input]

/-! ## The console -/

/-- The first line of the input without its line end, and the rest of the input. -/
def splitLine (input : List UInt8) : List UInt8 × List UInt8 :=
  (input.takeWhile (· != 10), (input.dropWhile (· != 10)).tail)

/-- Read a line from the console. At its end the input gives empty lines. -/
def readLine : Script String := do
  let s ← store
  if s.isSet (·.nonInteractive) "NON_INTERACTIVE" then return ""
  else
    let (line, rest) := splitLine s.input
    modifyStore fun s => { s with input := rest }
    match String.fromUTF8? ⟨line.toArray⟩ with
    | none => fail (.file .encoding)
    | some text => return String.ofList (Text.dropEndWhile (· == '\r') text.toList)

/-- Read a line into a target. The tag of a variable says what the line becomes. -/
def readInto (ev : Evaluator) (target : Expr) : Script Unit := do
  let line ← readLine
  match target with
  | .name word =>
    let tag := (← scope).tag? word
    ev.assign target (tag.elim (.text line) (·.coerce line))
  | _ => ev.assign target (.text line)

/-! ## Operators -/

def binary (ev : Evaluator) (left : Expr) (op : BinaryOp) (right : Expr) : Script Value := do
  let first ← ev.expr left
  match op, first with
  | .and, _ => if first.isTruthy then return .bool (← ev.test right) else return .bool false
  | .or, _ => if first.isTruthy then return .bool true else return .bool (← ev.test right)
  | .nullCoalesce, .nil => ev.expr right
  | .nullCoalesce, _ => return first
  | .pipe, _ => ev.pipe first right
  | .shiftRight, .stream .input =>
    ev.readInto right
    return first
  | .shiftLeft, .stream .output =>
    let second ← ev.expr right
    write second.display
    return first
  | .shiftLeft, .channel id =>
    let second ← ev.expr right
    send id second
    return first
  | _, _ =>
    let second ← ev.expr right
    first.binary op second

def entries (ev : Evaluator) (found : Dict Value) : List (Expr × Expr) → Script (Dict Value)
  | [] => return found
  | (key, value) :: rest => do
    let key ← ev.expr key
    let value ← ev.expr value
    ev.entries (Dict.insert key.display value found) rest

def evaluate (ev : Evaluator) : Expr → Script Value
  | .int n => return .int n
  | .float x => return .float x
  | .text s => return .text s
  | .bool b => return .bool b
  | .nil => return .nil
  | .name word => do return lookup word (← task) (← store)
  | .this => do return (← scope).this.getD .nil
  | .call callee arguments => ev.call callee arguments
  | .create className arguments => do
    let args ← ev.exprs arguments
    return .object (← ev.create className args)
  | .member object property _ => do
    let object ← ev.expr object
    ev.readMember object property
  | .index _ none => fail (.invalid .emptyIndex)
  | .index target (some key) => do
    let container ← ev.expr target
    let key ← ev.expr key
    container.element (← store).fields key
  | .assign target value => do
    let value ← ev.expr value
    ev.assign target value
    return value
  | .choice condition consequence alternative => do
    let condition ← ev.expr condition
    if condition.isTruthy then
      match consequence with
      | some body => ev.block body
      | none => return condition
    else ev.block alternative
  | .binary left op right => ev.binary left op right
  | .unary op operand => do
    let operand ← ev.expr operand
    operand.unary op
  | .step operand op => do
    let current ← ev.expr operand
    let next ← ofExcept (current.stepped op)
    ev.assign operand next
    return current
  | .array items => do return .array (← ev.exprs items)
  | .map pairs => do return .map (← ev.entries [] pairs)
  | .block body => ev.block body
  | .function decl => return .function decl
  | .isset operands => do return .bool (← ev.allExist operands)
  | .empty operand => do
    let value ← if isPlace operand then ev.existing? operand else some <$> ev.expr operand
    return .bool (value.all fun v => !v.isTruthy)

end RouteScript.Evaluator
