import RouteScript.Task.Script

/-!
# Evaluators

Evaluation is split into jobs. The rules for a job are written against an evaluator for the jobs
inside it, so that each rule stands on its own; the evaluator is tied up at the end, with a bound on
how deep jobs may stand inside each other.
-/

namespace RouteScript

/-- A piece of evaluation. -/
inductive Job where
  | expr (expr : Expr)
  | block (body : Block)
  | call (callee : Value) (args : List Value)
  /-- The statements of a script, from its place, that another one loads. -/
  | load (place : List String) (body : Block)

abbrev Invoke := Value → List Value → Script Value

/-- How the host carries out a method of a hosted class: it gets the name of the class, the
receiver, the method and the arguments, and may call back. -/
abbrev HostHandler := Invoke → String → ObjectRef → String → List Value → Script Value

structure Evaluator where
  /-- Carry out a job inside the current one. -/
  run : Job → Script Value
  /-- The largest number of rounds of a loop. -/
  rounds : Nat
  host : HostHandler

namespace Evaluator

def expr (ev : Evaluator) (e : Expr) : Script Value := ev.run (.expr e)

def exprs (ev : Evaluator) (l : List Expr) : Script (List Value) := Script.each ev.expr l

def test (ev : Evaluator) (e : Expr) : Script Bool := do return (← ev.expr e).isTruthy

def block (ev : Evaluator) (body : Block) : Script Value := ev.run (.block body)

end Evaluator

namespace Script

/-- Turn the signals that leave a script into faults; a returned value is the result. -/
def settle (m : Script Value) : Script Value := do
  match ← m.capture with
  | .ok v | .error (.returned v) => return v
  | .error x => fail x.toFault

def assignVariable (name : String) (value : Value) : Script Unit := do
  let scope ← scope
  if let some tag := scope.tag? name then
    ofExcept ((← store).check name tag value)
  modifyScope (·.set name value)

/-- Bind a variable with a tag in the innermost frame, if the tag allows its value. -/
def declareVariable (name : String) (tag : Tag) (value : Value) : Script Unit := do
  ofExcept ((← store).check name tag value)
  modifyScope (·.declare name value (some tag))

/-- Send a value over a channel. On a channel without capacity, wait until it has been taken. -/
def send (channel : Nat) (value : Value) : Script Unit := do
  let reply ← request (.offer channel value)
  let ticket ← ofExcept reply
  request (.settle channel ticket)

def receive (channel : Nat) : Script (Option Value) := request (.take channel)

def spawn (work : Work) : Script Value := do
  let t ← task
  update (·.spawn t.fork work)

end Script

end RouteScript
