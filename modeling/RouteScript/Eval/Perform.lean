import RouteScript.Eval.Statement

/-!
# Evaluation

The evaluator tied up: a job is carried out by its rule, and the jobs inside it with one level less.
-/

namespace RouteScript

namespace Evaluator

def step (ev : Evaluator) : Job → Script Value
  | .expr e => ev.evaluate e
  | .block body => ev.statements .nil body
  | .call callee args => ev.callValue callee args
  | .load place body => do
    Script.modifyStore (·.start place)
    return (← ev.script body).1

/-- Carry out a job with at most `levels` jobs inside each other, and as many rounds of a loop. -/
def perform (host : HostHandler) : Nat → Job → Script Value
  | 0, _ => Script.starve
  | levels + 1, job => step ⟨perform host levels, levels, host⟩ job

def withLevels (host : HostHandler) (levels : Nat) : Evaluator :=
  ⟨perform host levels, levels, host⟩

def work (ev : Evaluator) : Work → Script Value
  | .call callee => ev.run (.call callee [])
  | .evaluate e => do
    let v ← ev.expr e
    if v.isCallable then ev.run (.call v []) else return v

/-- Run a whole program: its statements, and then the method `main` of the class `Main` if that is
an initializer. -/
def program (ev : Evaluator) (p : Program) : Script Value := do
  let (last, stopped) ← ev.script p.statements
  if stopped then return last
  else
    match ((← Script.store).classes.findMethod? "Main" "main").filter (·.isInit) with
    | none => return last
    | some entry => Script.settle do
      let ref ← ev.create "Main" []
      ev.callMethod entry ref []

end Evaluator

end RouteScript
