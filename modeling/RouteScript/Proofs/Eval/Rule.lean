import RouteScript.Eval.Perform

/-!
# Rules of evaluation

What the rules of evaluation are made of. A rule is a script that depends on the evaluator for the
jobs inside it. It may start such jobs, catch their signals, wait, change the store in allowed ways,
change variables in sight and call functions; it has no other access to the frames of its task.
What holds of all these pieces holds of every rule, by induction.
-/

namespace RouteScript

/-- The ways in which rules change the store of a task that does not wait. -/
inductive Store.Step (s : Store) : Store → Prop
  | write (text : String) : Step s (s.write text)
  | fields (ref : ObjectRef) (f : Dict Value → Dict Value) : Step s (s.modifyFields ref f)
  | object (className : String) (fields : Dict Value) : Step s (s.newObject className fields).2
  | channel (capacity : Nat) : Step s (s.newChannel capacity).2
  | close (id : Nat) (c : Channel) :
    Step s { s with channels := s.channels.setIfInBounds id c }
  | future (outcome : Option (Except Signal Value)) : Step s (s.newFuture outcome).2
  | spawn (task : Task) (work : Work) : Step s (s.spawn task work).2
  | input (rest : List UInt8) : Step s { s with input := rest }
  | function (decl : FunctionDecl) :
    Step s { s with functions := Dict.insert decl.name decl s.functions }
  | route (verb path : String) (handler : Value) :
    Step s { s with routes := s.routes.add verb path handler }
  | pushMiddleware (name : String) : Step s { s with routes := s.routes.push name }
  | popMiddleware : Step s { s with routes := s.routes.pop }
  | ask (asked : Nat) : Step s { s with asked }

/-- No rule changes the settings. -/
theorem Store.Step.settings_eq {s s' : Store} (h : s.Step s') : s'.settings = s.settings := by
  cases h <;> rfl

/-- Call a value, with the signals that leave the call turned into faults. -/
def Evaluator.invoke (ev : Evaluator) : Invoke :=
  fun callee args => (ev.run (.call callee args)).settle

/-- The scripts that rules of evaluation are made of. What a script does to the store by itself is
in `S`; registering classes, loading scripts and storing elements have changes of their own. Globals
are written by assignment and, if `direct` holds, past all frames as well. -/
inductive Rule (direct : Prop) (S : Store → Store → Prop) :
    {α : Type} → (Evaluator → Script α) → Prop
  | pure {α : Type} (a : α) : Rule direct S fun _ => (Pure.pure a : Script α)
  | bind {α β : Type} {m : Evaluator → Script α} {next : Evaluator → α → Script β} :
    Rule direct S m → (∀ a, Rule direct S (next · a)) → Rule direct S fun ev => m ev >>= next ev
  | capture {α : Type} {m : Evaluator → Script α} :
    Rule direct S m → Rule direct S fun ev => (m ev).capture
  | signal {α : Type} (x : Signal) : Rule direct S fun _ => (Script.signal x : Script α)
  | starve {α : Type} : Rule direct S fun _ => (Script.starve : Script α)
  | task : Rule direct S fun _ => Script.task
  | store : Rule direct S fun _ => Script.store
  | update {α : Type} {f : Store → α × Store} :
    (∀ s, S s (f s).2) → Rule direct S fun _ => Script.update f
  | request (r : Request) : Rule direct S fun _ => Script.request r
  | rounds {α : Type} {m : Nat → Evaluator → Script α} :
    (∀ n, Rule direct S (m n)) → Rule direct S fun ev => m ev.rounds ev
  | run (job : Job) : Rule direct S fun ev => ev.run job
  | host (className : String) (ref : ObjectRef) (method : String) (args : List Value) :
    Rule direct S fun ev => ev.host ev.invoke className ref method args
  | invoke (decl : FunctionDecl) (args : List Value) (this : Option Value) :
    Rule direct S fun ev => ev.invokeFunction decl args this
  | assign (name : String) (value : Value) : Rule direct S fun _ => Script.assignVariable name value
  | storeIn (name : String) (key : Option Value) (value : Value) :
    Rule direct S fun _ => Evaluator.storeInVariable name key value
  | declare (name : String) (tag : Tag) (value : Value) :
    Rule direct S fun _ => Script.declareVariable name tag value
  | bindCaught (name : String) (value : Value) :
    Rule direct S fun _ => Script.modifyScope (·.declare name value none)
  | setGlobal (name : String) (value : Value) (h : direct) :
    Rule direct S fun _ => Script.modifyScope (·.setGlobal name value)
  | declareClass (decl : ClassDecl) : Rule direct S fun _ => Evaluator.declareClass decl
  | load (path : String) : Rule direct S fun ev => ev.load path
  | start (place : List String) : Rule direct S fun _ => Script.modifyStore (·.start place)

/-- The rules that write globals by assignment only. All rules of the evaluator itself are of this
kind; a host may also write globals directly. -/
abbrev PlainRule (S : Store → Store → Prop) {α : Type} (f : Evaluator → Script α) : Prop :=
  Rule False S f

namespace Rule

variable {direct : Prop} {S : Store → Store → Prop} {α β : Type}

/-! ## Simple scripts -/

theorem map {m : Evaluator → Script α} (h : Rule direct S m) (f : α → β) :
    Rule direct S fun ev => f <$> m ev :=
  .bind h fun a => .pure (f a)

theorem fail (fault : Fault) : Rule direct S fun _ => (Script.fail fault : Script α) := .signal _

theorem ofExcept (x : Except Fault α) : Rule direct S fun _ => Script.ofExcept x := by
  cases x with
  | ok a => exact .pure a
  | error fault => exact .fail fault

theorem release (x : Except Signal α) : Rule direct S fun _ => Script.release x := by
  cases x with
  | ok a => exact .pure a
  | error x => exact .signal x

theorem scope : Rule direct S fun _ => Script.scope := .bind .task fun _ => .pure _

theorem modifyStore {f : Store → Store} (h : ∀ s, S s (f s)) :
    Rule direct S fun _ => Script.modifyStore f :=
  .update (f := fun s => ((), f s)) h

/-- A rule may branch on what is known beforehand. -/
theorem ite {c : Prop} [Decidable c] {m m' : Evaluator → Script α} (h : Rule direct S m)
    (h' : Rule direct S m') : Rule direct S fun ev => if c then m ev else m' ev := by
  by_cases hc : c
  · simpa only [if_pos hc] using h
  · simpa only [if_neg hc] using h'

/-! ## Jobs inside a rule -/

theorem expr (e : Expr) : Rule direct S fun ev => ev.expr e := .run (.expr e)

theorem block (body : Block) : Rule direct S fun ev => ev.block body := .run (.block body)

theorem test (e : Expr) : Rule direct S fun ev => ev.test e := .bind (.expr e) fun _ => .pure _

/-- Settling captures the outcome and fails if it is a jump. -/
theorem settle {m : Evaluator → Script Value} (h : Rule direct S m) :
    Rule direct S fun ev => (m ev).settle := by
  refine .bind h.capture fun outcome => ?_
  match outcome with
  | .ok v | .error (.returned v) => exact .pure v
  | .error .broken | .error .continued | .error (.thrown _) | .error (.failed _) => exact .fail _

/-! ## Loops -/

/-- A list is worked through by a rule for each element. -/
theorem each {f : Evaluator → α → Script β} (h : ∀ a, Rule direct S (f · a)) (l : List α) :
    Rule direct S fun ev => Script.each (f ev) l := by
  induction l with
  | nil => exact .pure []
  | cons a rest ih => exact .bind (h a) fun b => .bind ih fun bs => .pure (b :: bs)

theorem exprs (l : List Expr) : Rule direct S fun ev => ev.exprs l := each expr l

theorem forWhile {f : Evaluator → α → Script Bool} (h : ∀ a, Rule direct S (f · a)) (l : List α) :
    Rule direct S fun ev => Script.forWhile (f ev) l := by
  induction l with
  | nil => exact .pure ()
  | cons a rest ih => exact .bind (h a) fun _ => .ite ih (.pure ())

/-- A loop is a rule, by induction on its rounds. -/
theorem repeatWhile {round : Evaluator → Script Bool} (h : Rule direct S round) :
    Rule direct S fun ev => Script.repeatWhile ev.rounds (round ev) := by
  refine .rounds (m := fun n ev => Script.repeatWhile n (round ev)) fun n => ?_
  induction n with
  | zero => exact .starve
  | succ n ih => exact .bind h fun _ => .ite ih (.pure ())

theorem iterate {round : Evaluator → α → Script (Option α)} (h : ∀ a, Rule direct S (round · a))
    (a : α) : Rule direct S fun ev => Script.iterate ev.rounds (round ev) a := by
  refine .rounds (m := fun n ev => Script.iterate n (round ev) a) fun n => ?_
  induction n generalizing a with
  | zero => exact .starve
  | succ n ih =>
    refine .bind (h a) fun next => ?_
    cases next with
    | none => exact .pure ()
    | some next => exact ih next

end Rule

end RouteScript
