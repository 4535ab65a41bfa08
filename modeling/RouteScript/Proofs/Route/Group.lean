import RouteScript.Proofs.Eval.Hosted
import RouteScript.Proofs.Eval.Settling

/-!
# Groups of routes

A group opens a middleware, calls its body and closes whatever middleware was opened last then,
however the body ends. So the open middleware is as before exactly if the body leaves one name more
than there was. Code that registers routes, also in groups inside, and closes what it opens does so;
the body of a group can as well close what was open before the group, or leave something open.
-/

namespace RouteScript

namespace Service

/-- The arguments of a group: its name and something to call. -/
structure IsGroup (args : List Value) (name : String) (body : Value) : Prop where
  named : Method.text ⟨"Router", "group"⟩ args 0 = .ok name
  called : args[1]? = some body
  callable : body.isCallable = true

variable {args : List Value} {name : String} {body : Value}

theorem onRouter_group_apply (invoke : Invoke) (args : List Value) (t : Task) (s : Store) :
    onRouter invoke "group" args t s =
      (Script.ofExcept (Method.text ⟨"Router", "group"⟩ args 0) t s).bind fun name t s =>
        (Script.ofExcept (Method.argument ⟨"Router", "group"⟩ args 1) t s).bind fun body t s =>
          if body.isCallable then
            (invoke body [] t { s with routes := s.routes.push name }).capture.bind
              fun outcome t s =>
                (Script.release outcome t { s with routes := s.routes.pop }).bind fun _ t s =>
                  .finished (.value .nil) t s
          else Script.ofExcept (Method.refuse ⟨"Router", "group"⟩ (.groupBody body.kind)) t s := by
  change Run.bind _ _ = _
  congr
  funext name t s
  change Run.bind _ _ = _
  congr
  funext body t s
  by_cases h : body.isCallable <;> simp only [h]
  · rfl
  · rfl

/-- A group as a run: the run of its body under the opened middleware. At the end the middleware
that was opened last is closed. -/
theorem onRouter_group (h : IsGroup args name body) (invoke : Invoke) (t : Task) (s : Store) :
    onRouter invoke "group" args t s =
      (invoke body [] t { s with routes := s.routes.push name }).capture.bind fun outcome t s =>
        Script.release (outcome.map fun _ => .nil) t { s with routes := s.routes.pop } := by
  have hbody : Method.argument ⟨"Router", "group"⟩ args 1 = .ok body := by
    simp [Method.argument, h.called]
  rw [onRouter_group_apply, h.named, hbody]
  change (if body.isCallable = true then _ else _) = _
  rw [if_pos h.callable]
  congr
  funext outcome t s
  cases outcome <;> rfl

/-- Without a name and something to call, a group does nothing and fails. -/
theorem onRouter_not_group (h : ∀ name body, ¬ IsGroup args name body) (invoke : Invoke) (t : Task)
    (s : Store) : ∃ fault, onRouter invoke "group" args t s =
      .finished (.signal (.failed fault)) t s := by
  rw [onRouter_group_apply]
  cases hname : Method.text ⟨"Router", "group"⟩ args 0 with
  | error fault => exact ⟨fault, rfl⟩
  | ok name =>
    cases hbody : args[1]? with
    | none => exact ⟨_, by simp only [Method.argument, hbody]; rfl⟩
    | some body =>
      have hcallable : ¬ body.isCallable = true := by
        intro callable
        exact h name body ⟨hname, hbody, callable⟩
      refine ⟨.argument "Router" "group" (.groupBody body.kind), ?_⟩
      simp only [Method.argument, hbody]
      change (if body.isCallable = true then _ else _) = _
      rw [if_neg hcallable]
      rfl

end Service

/-! ## Runs of groups -/

namespace Interpreter

def openMiddleware (i : Interpreter) : List String := i.store.routes.middleware

/-- The interpreter with one more middleware open. -/
def opening (name : String) (i : Interpreter) : Interpreter :=
  { i with store := { i.store with routes := i.store.routes.push name } }

/-- The interpreter without the middleware that was opened last. -/
def closing (i : Interpreter) : Interpreter :=
  { i with store := { i.store with routes := i.store.routes.pop } }

/-- The router of the interpreter carries out a group. -/
def group (args : List Value) (i : Interpreter) : Script Value :=
  Service.onRouter i.evaluator.invoke "group" args

variable {args : List Value} {name : String} {body : Value}

/-- A group ends when its body ends, whatever other tasks do in between, and in the same way. Then
the middleware that was opened last is closed. -/
theorem run?_group (h : Service.IsGroup args name body) (i : Interpreter) :
    i.run? (i.group args) =
      ((i.opening name).run? (i.evaluator.invoke body [])).map fun (outcome, j) =>
        (outcome.map fun _ => .nil, j.closing) :=
  run?_of_capture (fun outcome _ => outcome.map fun _ => Value.nil)
    (fun s => { s with routes := s.routes.pop }) (Service.onRouter_group h _ _ _)

/-- The open middleware is as before exactly if there was one name more at the end of the body. -/
theorem openMiddleware_closing_eq_iff {i j : Interpreter} :
    j.closing.openMiddleware = i.openMiddleware ↔
      (∃ last, j.openMiddleware = i.openMiddleware ++ [last]) ∨
        j.openMiddleware = [] ∧ i.openMiddleware = [] := by
  have closed : j.closing.openMiddleware = j.openMiddleware.dropLast := rfl
  rw [closed]
  rcases List.eq_nil_or_concat j.openMiddleware with empty | ⟨before, last, split⟩
  · rw [empty]
    grind
  · rw [split]
    grind

end Interpreter

/-! ## Code that registers routes -/

inductive Verb where
  | get | post | put | delete

def Verb.word : Verb → String
  | .get => "get"
  | .post => "post"
  | .put => "put"
  | .delete => "delete"

/-- Code that registers routes: what it does first, and the code after that. -/
inductive Plan where
  | done
  | route (verb : Verb) (path target : String) (rest : Plan)
  | middleware (name : String) (rest : Plan)
  | close (rest : Plan)
  | group (name : String) (body rest : Plan)
  | raise (text : String)

namespace Plan

def callRouter (method : String) (args : List Expr) : Stmt :=
  .expr (.call (.member (.name "Router") method .static) args)

/-- A function without parameters. -/
def callback (body : Block) : FunctionDecl := ⟨"<anonymous>", [], some body, false⟩

def code : Plan → Block
  | .done => []
  | .route verb path target rest =>
    callRouter verb.word [.text path, .text target] :: rest.code
  | .middleware name rest => callRouter "middleware" [.text name] :: rest.code
  | .close rest => callRouter "end" [] :: rest.code
  | .group name body rest =>
    callRouter "group" [.text name, .function (callback body.code)] :: rest.code
  | .raise text => [.raise (.text text)]

/-- Whether a plan comes to its end: nothing is raised, and all targets name a method. -/
def completes : Plan → Bool
  | .done => true
  | .route _ _ target rest => target.toList.contains '@' && rest.completes
  | .middleware _ rest | .close rest => rest.completes
  | .group _ body rest => body.completes && rest.completes
  | .raise _ => false

def apply : Plan → RouteTable → RouteTable
  | .done, t | .raise _, t => t
  | .route verb path target rest, t =>
    if target.toList.contains '@' then rest.apply (t.add verb.word path (.text target)) else t
  | .middleware name rest, t => rest.apply (t.push name)
  | .close rest, t => rest.apply t.pop
  | .group name body rest, t =>
    let t := (body.apply (t.push name)).pop
    if body.completes then rest.apply t else t

/-- How many groups stand inside each other. -/
def depth : Plan → Nat
  | .done | .raise _ => 0
  | .route _ _ _ rest | .middleware _ rest | .close rest => rest.depth
  | .group _ body rest => max (body.depth + 1) rest.depth

/-- After `n` names have been opened, the plan closes these and all that it opens itself before it
ends, and nothing else. -/
def closes : Nat → Plan → Bool
  | n, .done | n, .raise _ => n == 0
  | n, .route _ _ target rest =>
    if target.toList.contains '@' then rest.closes n else n == 0
  | n, .middleware _ rest => rest.closes (n + 1)
  | 0, .close _ => false
  | n + 1, .close rest => rest.closes n
  | n, .group _ body rest => body.closes 0 && if body.completes then rest.closes n else n == 0

/-- A plan that closes what has been opened leaves what was open before that. -/
theorem middleware_apply {p : Plan} {opened before : List String} {t : RouteTable}
    (h : p.closes opened.length) (ht : t.middleware = before ++ opened) :
    (p.apply t).middleware = before := by
  induction p generalizing opened before t with
  | done =>
    obtain rfl : opened = [] := by simpa [closes] using h
    simpa [apply] using ht
  | raise text =>
    obtain rfl : opened = [] := by simpa [closes] using h
    simpa [apply] using ht
  | route verb path target rest ih =>
    by_cases named : target.toList.contains '@'
    · rw [closes, if_pos named] at h
      rw [apply, if_pos named]
      exact ih h ht
    · rw [closes, if_neg named] at h
      obtain rfl : opened = [] := by simpa using h
      rw [apply, if_neg named]
      simpa using ht
  | middleware name rest ih =>
    have opens : (t.push name).middleware = before ++ (opened ++ [name]) := by
      simp [RouteTable.push, ht]
    exact ih (by simpa [closes] using h) opens
  | close rest ih =>
    rcases List.eq_nil_or_concat opened with rfl | ⟨kept, last, rfl⟩
    · simp [closes] at h
    · have left : t.pop.middleware = before ++ kept := by
        simp [RouteTable.pop, ht, ← List.append_assoc]
      exact ih (by simpa [closes] using h) left
  | group name body rest ihbody ih =>
    rw [closes, Bool.and_eq_true] at h
    have inside : (body.apply (t.push name)).middleware = t.middleware ++ [name] :=
      @ihbody [] _ _ h.1 (by simp [RouteTable.push])
    have restored : (body.apply (t.push name)).pop.middleware = before ++ opened := by
      simp [RouteTable.pop, inside, ht]
    by_cases completed : body.completes
    · rw [if_pos completed] at h
      simp only [apply, if_pos completed]
      exact ih h.2 restored
    · rw [if_neg completed] at h
      obtain rfl : opened = [] := by simpa using h.2
      simpa [apply, if_neg completed] using restored

end Plan

/-! ## Runs of such code -/

/-- Which classes are hosted does not depend on routes and objects. -/
theorem Store.Hosts.changed {className : String} {service : Service} {s : Store}
    (h : s.Hosts className service) (routes : RouteTable) (objects : Array (Dict Value)) :
    Store.Hosts className service { s with routes, objects } :=
  ⟨h.chain, h.function, h.service⟩

namespace Evaluator

variable {host : HostHandler} {levels : Nat} {t : Task} {s : Store}

/-- Calling a function without parameters, whose statements do not wait and end with a value or
something that can be caught. -/
theorem invoke_callback {block : Block} {outcome : Except Signal Value} {s' : Store}
    (hblock : (withLevels host levels).statements .nil block (t.enter t.scope.this) s =
      Script.release outcome (t.enter t.scope.this) s')
    (hcaught : ∀ x, outcome = .error x → x.caught?.isSome)
    (hcalls : t.calls < s.settings.callLimit) :
    (withLevels host (levels + 2)).invoke (.function (Plan.callback block)) [] t s =
      Script.release (outcome.mapError fun x => .failed x.toFault) t s' := by
  have hcall : (withLevels host (levels + 2)).run (.call (.function (Plan.callback block)) []) t s =
      Script.release outcome t s' := by
    rw [run_withLevels_succ]
    change (withLevels host (levels + 1)).invokeFunction (Plan.callback block) [] t.scope.this t s =
      _
    rw [invokeFunction_apply _ rfl, if_neg (by omega)]
    change ((withLevels host levels).statements .nil block (t.enter t.scope.this) s).capture.bind _ =
      _
    rw [hblock]
    cases outcome with
    | ok v => rfl
    | error x =>
      have := hcaught x rfl
      cases x <;> simp [Signal.caught?] at this <;> rfl
  change (((withLevels host (levels + 2)).run _ t s).capture.bind _) = _
  rw [hcall]
  cases outcome with
  | ok v => rfl
  | error x =>
    have := hcaught x rfl
    cases x <;> simp [Signal.caught?] at this <;> rfl

/-- A statement that calls the router. -/
theorem statement_callRouter (host : HostHandler) (levels : Nat) (args : List Expr)
    {values : List Value} (hfree : t.IsFree "Router") (hhosts : s.Hosts "Router" .router)
    (hargs : (withLevels host (levels + 1)).exprs args t s = .finished (.value values) t s)
    (method : String) :
    (withLevels host (levels + 2)).statement (Plan.callRouter method args) t s =
      Service.onRouter (withLevels host (levels + 1)).invoke method values t
        (s.newObject "Router" []).2 :=
  expr_hosted_call hfree hhosts hargs method .static

/-- A statement that ends with a value is followed by the rest of the block. -/
theorem statements_of_value {ev : Evaluator} {stmt : Stmt} {v : Value} {s' : Store}
    (h : ev.statement stmt t s = .finished (.value v) t s') (last : Value) (rest : Block) :
    ev.statements last (stmt :: rest) t s = ev.statements v rest t s' := by
  rw [statements, Script.bind_apply, h]
  rfl

/-- A statement that ends with a signal ends the block. -/
theorem statements_of_signal {ev : Evaluator} {stmt : Stmt} {x : Signal} {s' : Store}
    (h : ev.statement stmt t s = .finished (.signal x) t s') (last : Value) (rest : Block) :
    ev.statements last (stmt :: rest) t s = .finished (.signal x) t s' := by
  rw [statements, Script.bind_apply, h]
  rfl

/-- A route is added if its target names a controller and a method, and is a fault otherwise. -/
theorem onRouter_verb (invoke : Invoke) (verb : Verb) (path target : String) (t : Task)
    (s : Store) :
    ∃ fault, Service.onRouter invoke verb.word [.text path, .text target] t s =
      if target.toList.contains '@' then
        .finished (.value .nil) t { s with routes := s.routes.add verb.word path (.text target) }
      else .finished (.signal (.failed fault)) t s := by
  refine ⟨.argument "Router" verb.word (.routeHandler (Value.text target).display), ?_⟩
  cases verb <;>
  · change (Script.ofExcept (if target.toList.contains '@' then .ok (Value.text target) else _)
      t s).bind _ = _
    split <;> rfl

/-- The statements of a plan do to the routes what the plan says, and they come to their end if the
plan does. -/
theorem statements_code (p : Plan) (hlevels : 3 * p.depth + 2 ≤ levels) (hfree : t.IsFree "Router")
    (hhosts : s.Hosts "Router" .router) (hcalls : t.calls + p.depth ≤ s.settings.callLimit)
    (last : Value) :
    ∃ outcome objects, (withLevels host levels).statements last p.code t s =
        Script.release outcome t { s with routes := p.apply s.routes, objects } ∧
      outcome.isOk = p.completes ∧ ∀ x, outcome = .error x → x.caught?.isSome := by
  induction p generalizing levels t s last with
  | done => exact ⟨.ok last, s.objects, rfl, rfl, by simp⟩
  | raise text =>
    obtain ⟨n, rfl⟩ : ∃ n, levels = n + 1 := ⟨levels - 1, by omega⟩
    exact ⟨.error (.thrown (.text text)), s.objects, rfl, rfl, by simp [Signal.caught?]⟩
  | route verb path target rest ih =>
    obtain ⟨n, rfl⟩ : ∃ n, levels = n + 2 := ⟨levels - 2, by omega⟩
    have hstmt := statement_callRouter host n [.text path, .text target] hfree hhosts rfl verb.word
    obtain ⟨fault, hverb⟩ := onRouter_verb (withLevels host (n + 1)).invoke verb path target t
      (s.newObject "Router" []).2
    rw [hverb] at hstmt
    by_cases named : target.toList.contains '@'
    · rw [if_pos named] at hstmt
      obtain ⟨outcome, objects, hrest, hok, hcaught⟩ :=
        ih hlevels hfree (hhosts.changed (s.routes.add verb.word path (.text target))
          (s.objects.push [])) hcalls .nil
      refine ⟨outcome, objects, ?_, ?_, hcaught⟩
      · rw [Plan.code, statements_of_value hstmt, Plan.apply, if_pos named]
        exact hrest
      · rw [hok, Plan.completes, named, Bool.true_and]
    · rw [if_neg named] at hstmt
      refine ⟨.error (.failed fault), s.objects.push [], ?_, ?_, ?_⟩
      · rw [Plan.code, statements_of_signal hstmt, Plan.apply, if_neg named]
        rfl
      · rw [Plan.completes, Bool.eq_false_iff.2 named]
        rfl
      · rintro x ⟨⟩
        rfl
  | middleware name rest ih =>
    obtain ⟨n, rfl⟩ : ∃ n, levels = n + 2 := ⟨levels - 2, by omega⟩
    have hstmt := statement_callRouter host n [.text name] hfree hhosts rfl "middleware"
    obtain ⟨outcome, objects, hrest, hok, hcaught⟩ :=
      ih hlevels hfree (hhosts.changed (s.routes.push name) (s.objects.push [])) hcalls .nil
    exact ⟨outcome, objects, (statements_of_value hstmt last rest.code).trans hrest, hok, hcaught⟩
  | close rest ih =>
    obtain ⟨n, rfl⟩ : ∃ n, levels = n + 2 := ⟨levels - 2, by omega⟩
    have hstmt := statement_callRouter host n [] hfree hhosts rfl "end"
    obtain ⟨outcome, objects, hrest, hok, hcaught⟩ :=
      ih hlevels hfree (hhosts.changed s.routes.pop (s.objects.push [])) hcalls .nil
    exact ⟨outcome, objects, (statements_of_value hstmt last rest.code).trans hrest, hok, hcaught⟩
  | group name body rest ihbody ih =>
    rw [Plan.depth] at hlevels hcalls
    obtain ⟨n, rfl⟩ : ∃ n, levels = n + 3 := ⟨levels - 3, by omega⟩
    have hstmt := statement_callRouter host (n + 1)
      [.text name, .function (Plan.callback body.code)] hfree hhosts rfl "group"
    -- The body runs three levels further down, in a call of its own.
    obtain ⟨inner, objects, hbody, hok, hcaught⟩ :=
      @ihbody n (t.enter t.scope.this) _ (by omega) (hfree.enter t.scope.this)
        (hhosts.changed (s.routes.push name) (s.objects.push [])) (by simp [Task.enter]; omega) .nil
    have hinvoke := invoke_callback hbody hcaught (by simp; omega)
    rw [Service.onRouter_group ⟨rfl, rfl, rfl⟩] at hstmt
    have hgroup := hstmt.trans (congrArg (fun r => (Run.capture r).bind _) hinvoke)
    cases inner with
    | ok v =>
      have completed : body.completes = true := hok.symm
      obtain ⟨outcome, objects, hrest, hok, hcaught⟩ :=
        @ih (n + 3) t _ (by omega) hfree
          (hhosts.changed (body.apply (s.routes.push name)).pop objects) (by simp; omega) .nil
      refine ⟨outcome, objects, ?_, ?_, hcaught⟩
      · rw [Plan.code, statements_of_value hgroup, Plan.apply, completed]
        exact hrest
      · rw [hok, Plan.completes, completed, Bool.true_and]
    | error x =>
      have stopped : body.completes = false := hok.symm
      refine ⟨.error (.failed x.toFault), objects, ?_, ?_, ?_⟩
      · rw [Plan.code, statements_of_signal hgroup, Plan.apply, stopped]
        rfl
      · rw [Plan.completes, stopped]
        rfl
      · rintro x ⟨⟩
        rfl

end Evaluator

/-! ## Groups with such code -/

namespace Interpreter

/-- A group whose body is the code of a plan runs to its end, and does what the plan says between
opening a middleware and closing one. -/
theorem run?_group_code (i : Interpreter) (hfree : i.task.IsFree "Router")
    (hhosts : i.store.Hosts "Router" .router) (name : String) (p : Plan)
    (hlevels : 3 * p.depth + 4 ≤ i.levels)
    (hcalls : i.task.calls + p.depth < i.store.settings.callLimit) :
    ∃ outcome j, i.run? (i.group [.text name, .function (Plan.callback p.code)]) =
        some (outcome, j) ∧
      outcome.isOk = p.completes ∧ j.store.routes = (p.apply (i.store.routes.push name)).pop := by
  obtain ⟨levels, hlevel⟩ : ∃ n, i.levels = n + 2 := ⟨i.levels - 2, by omega⟩
  obtain ⟨outcome, objects, hcode, hok, hcaught⟩ :=
    @Evaluator.statements_code i.host levels (i.task.enter i.task.scope.this) _ p (by omega)
      (hfree.enter i.task.scope.this) (hhosts.changed (i.store.routes.push name) i.store.objects)
      (by simp [Task.enter]; omega) .nil
  have hinvoke := Evaluator.invoke_callback hcode hcaught (by simp; omega)
  rw [← hlevel] at hinvoke
  have hbody := run?_of_release (i := i.opening name) hinvoke
  have hargs : Service.IsGroup [.text name, .function (Plan.callback p.code)] name
      (.function (Plan.callback p.code)) := ⟨rfl, rfl, rfl⟩
  have hgroup := (run?_group hargs i).trans (congrArg (Option.map _) hbody)
  refine ⟨_, _, hgroup, ?_, rfl⟩
  rw [← hok]
  cases outcome <;> rfl

/-- The middleware that is open after a group is what the body left, without the name on top. So it
is as before exactly if the body left one name more. Code that registers routes, nests groups and
closes what it opens is of this kind, also if it raises something, but a single end too many closes
a middleware from before the group, and a single opening too many leaves that of the group open. -/
theorem group_closes_last_middleware (i : Interpreter) (name : String) :
    (∀ args, (∀ name body, ¬ Service.IsGroup args name body) →
      ∃ fault, i.run? (i.group args) = some (.error (.failed fault), i)) ∧
    (∀ args body, Service.IsGroup args name body → i.run? (i.group args) =
      ((i.opening name).run? (i.evaluator.invoke body [])).map fun (outcome, j) =>
        (outcome.map fun _ => .nil, j.closing)) ∧
    (∀ j : Interpreter, j.closing.openMiddleware = i.openMiddleware ↔
      (∃ last, j.openMiddleware = i.openMiddleware ++ [last]) ∨
        j.openMiddleware = [] ∧ i.openMiddleware = []) ∧
    (i.task.IsFree "Router" → i.store.Hosts "Router" .router → ∀ p : Plan,
      3 * p.depth + 4 ≤ i.levels → i.task.calls + p.depth < i.store.settings.callLimit →
      ∃ outcome j, i.run? (i.group [.text name, .function (Plan.callback p.code)]) =
          some (outcome, j) ∧
        outcome.isOk = p.completes ∧ j.store.routes = (p.apply (i.store.routes.push name)).pop ∧
        (p.closes 0 → j.openMiddleware = i.openMiddleware) ∧
        (p = .close .done → j.openMiddleware = i.openMiddleware.dropLast) ∧
        (∀ other, p = .middleware other .done →
          j.openMiddleware = i.openMiddleware ++ [name])) := by
  refine ⟨?_, ?_, ?_, ?_⟩
  · intro args h
    obtain ⟨fault, hrun⟩ := Service.onRouter_not_group h i.evaluator.invoke i.task i.store
    exact ⟨fault, run?_of_release hrun⟩
  · intro args body h
    exact run?_group h i
  · intro j
    exact openMiddleware_closing_eq_iff
  · intro hfree hhosts p hlevels hcalls
    obtain ⟨outcome, j, hrun, hok, hroutes⟩ := run?_group_code i hfree hhosts name p hlevels hcalls
    have hopen : j.openMiddleware = (p.apply (i.store.routes.push name)).middleware.dropLast := by
      rw [openMiddleware, hroutes]
      rfl
    refine ⟨outcome, j, hrun, hok, hroutes, ?_, ?_, ?_⟩
    · intro closes
      have left : (p.apply (i.store.routes.push name)).middleware = i.openMiddleware ++ [name] :=
        @Plan.middleware_apply p [] _ _ closes (by simp [RouteTable.push, openMiddleware])
      rw [hopen, left, List.dropLast_concat]
    · rintro rfl
      rw [hopen]
      simp [Plan.apply, RouteTable.push, RouteTable.pop, openMiddleware]
    · rintro other rfl
      rw [hopen]
      simp [Plan.apply, RouteTable.push, openMiddleware]

/-- Behind a group that ends once too often, nobody has to log in any more. -/
theorem group_closes_last_middleware_lost :
    let i : Interpreter := (create {}).opening "auth"
    ∃ outcome j, i.run? (i.group [.text "guest",
        .function (Plan.callback (Plan.close .done).code)]) = some (outcome, j) ∧
      i.openMiddleware = ["auth"] ∧ j.openMiddleware = [] := by
  intro i
  obtain ⟨-, -, -, coded⟩ := group_closes_last_middleware i "guest"
  obtain ⟨outcome, j, hrun, -, -, -, lost, -⟩ := coded ⟨rfl, rfl⟩ ⟨rfl, rfl, rfl⟩ (.close .done)
    (by decide) (by decide)
  exact ⟨outcome, j, hrun, rfl, lost rfl⟩

end Interpreter

end RouteScript
