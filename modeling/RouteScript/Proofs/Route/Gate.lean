import RouteScript.Proofs.Dict
import RouteScript.Proofs.Eval.Settling
import RouteScript.Proofs.Eval.Variables
import RouteScript.Proofs.Route.History

/-!
# The gate before a handler

Three kinds of middleware look at the session of a request; all other names let every request pass.
The first of them that the session does not satisfy answers the request, and nothing of the handler
runs. Otherwise the handler runs, and nothing else does.
-/

namespace RouteScript

namespace Middleware

inductive Known where
  | auth | guest | admin

namespace Known

/-- The name under which scripts open the middleware. -/
def name : Known → String
  | .auth => "auth"
  | .guest => "guest"
  | .admin => "admin"

/-- Whether a session is what the middleware asks for: one of a user, of nobody, or of an
administrator. -/
def Satisfied (session : Dict Value) : Known → Prop
  | .auth => ∃ v, Dict.get? "user_id" session = some v ∧ v.isNil = false
  | .guest => ∀ v, Dict.get? "user_id" session = some v → v.isNil = true
  | .admin => Dict.get? "user_role" session = some (.text "admin")

/-- Where the middleware sends a request that it does not let pass. -/
def refusal : Known → Refusal
  | .auth => ⟨"/login", [("error", .text "Please log in to continue.")]⟩
  | .guest => ⟨"/dashboard", []⟩
  | .admin => ⟨"/", [("error", .text "Administrator access required.")]⟩

end Known

/-- The session satisfies all known middleware of a list. -/
def AllSatisfied (names : List String) (session : Dict Value) : Prop :=
  ∀ k : Known, k.name ∈ names → k.Satisfied session

/-- The first known middleware of a list that the session does not satisfy. -/
def FirstUnsatisfied (names : List String) (session : Dict Value) (k : Known) : Prop :=
  ∃ before later, names = before ++ k.name :: later ∧ AllSatisfied before session ∧
    ¬ k.Satisfied session

variable {session : Dict Value} {names : List String}

/-- A session has a key if there is a value and it is not nil. -/
theorem has_eq_true_iff {key : String} :
    has key session = true ↔ ∃ v, Dict.get? key session = some v ∧ v.isNil = false := by
  unfold has
  cases Dict.get? key session <;> simp

theorem isAdmin_eq_true_iff :
    isAdmin session = true ↔ Dict.get? "user_role" session = some (.text "admin") := by
  unfold isAdmin
  split
  · next role h => simp [h]
  · next h =>
    simp only [Bool.false_eq_true, false_iff]
    exact h "admin"

theorem refusal?_of_satisfied {k : Known} (h : k.Satisfied session) :
    refusal? k.name session = none := by
  cases k with
  | auth => simp [Known.name, refusal?, has_eq_true_iff.2 h]
  | guest =>
    have absent : ¬ has "user_id" session = true := by
      rw [has_eq_true_iff]
      rintro ⟨v, hv, hnil⟩
      simp [h v hv] at hnil
    simp [Known.name, refusal?, absent]
  | admin => simp [Known.name, refusal?, isAdmin_eq_true_iff.2 h]

/-- A known middleware that is not satisfied refuses in its own way. -/
theorem refusal?_of_not_satisfied {k : Known} (h : ¬ k.Satisfied session) :
    refusal? k.name session = some k.refusal := by
  cases k with
  | auth =>
    have absent : ¬ has "user_id" session = true := mt has_eq_true_iff.1 h
    simp [Known.name, refusal?, absent, Known.refusal]
  | guest =>
    have present : has "user_id" session = true := by
      simpa [has_eq_true_iff, Known.Satisfied] using h
    simp [Known.name, refusal?, present, Known.refusal]
  | admin =>
    have absent : ¬ isAdmin session = true := mt isAdmin_eq_true_iff.1 h
    simp [Known.name, refusal?, absent, Known.refusal]

/-- A name that stands for no known middleware lets everything pass. -/
theorem refusal?_of_unknown {name : String} (h : ∀ k : Known, k.name ≠ name) :
    refusal? name session = none := by
  unfold refusal?
  split
  · exact absurd rfl (h .auth)
  · exact absurd rfl (h .guest)
  · exact absurd rfl (h .admin)
  · rfl

theorem firstRefusal?_of_allSatisfied (h : AllSatisfied names session) :
    firstRefusal? names session = none := by
  rw [firstRefusal?, List.findSome?_eq_none_iff]
  intro name mem
  by_cases known : ∃ k : Known, k.name = name
  · obtain ⟨k, rfl⟩ := known
    exact refusal?_of_satisfied (h k mem)
  · exact refusal?_of_unknown (by simpa using known)

/-- The first middleware that is not satisfied decides on the refusal. -/
theorem firstRefusal?_of_firstUnsatisfied {k : Known} (h : FirstUnsatisfied names session k) :
    firstRefusal? names session = some k.refusal := by
  obtain ⟨before, later, rfl, pass, refused⟩ := h
  have := firstRefusal?_of_allSatisfied pass
  simp only [firstRefusal?] at this
  simp [firstRefusal?, List.findSome?_append, this, refusal?_of_not_satisfied refused]

/-- There is a first one to refuse, unless all are satisfied. -/
theorem exists_firstUnsatisfied (h : ¬ AllSatisfied names session) :
    ∃ k, FirstUnsatisfied names session k := by
  induction names with
  | nil => exact absurd (by simp [AllSatisfied]) h
  | cons name names ih =>
    by_cases first : ∃ k : Known, k.name = name ∧ ¬ k.Satisfied session
    · obtain ⟨k, rfl, refused⟩ := first
      exact ⟨k, [], names, rfl, by simp [AllSatisfied], refused⟩
    · simp only [not_exists, not_and, not_not] at first
      have rest : ¬ AllSatisfied names session := by
        intro pass
        apply h
        intro k mem
        rcases List.mem_cons.1 mem with here | mem
        · exact first k here
        · exact pass k mem
      obtain ⟨k, before, later, rfl, pass, refused⟩ := ih rest
      refine ⟨k, name :: before, later, rfl, ?_, refused⟩
      intro k' mem
      rcases List.mem_cons.1 mem with here | mem
      · exact first k' here
      · exact pass k' mem

end Middleware

open Middleware

/-! ## Serving a request -/

/-- The fields of the redirect that answers a refused request. -/
def Refusal.fields (r : Refusal) : Dict Value :=
  [("_type", .text "REDIRECT"), ("cookies", .map []), ("flash", .map r.flash), ("url", .text r.url)]

namespace Interpreter

/-- The object with the session of the next request. -/
def nextSession (i : Interpreter) : ObjectRef := ⟨i.store.objects.size + 1, "Session"⟩

/-- The interpreter with a request and a session as objects in the globals for them. -/
def inject (request session : Dict Value) (i : Interpreter) : Interpreter :=
  { i with
    task := { i.task with
      scope := (i.task.scope.setGlobal Service.requestGlobal
        (.object ⟨i.store.objects.size, "Request"⟩)).setGlobal Service.sessionGlobal
          (.object i.nextSession) }
    store := { i.store with objects := (i.store.objects.push request).push session } }

def nextRedirect (i : Interpreter) : ObjectRef := ⟨i.store.objects.size + 2, "RedirectResponse"⟩

/-- The interpreter with a request, a session and the redirect for the request. -/
def refuse (request session : Dict Value) (refusal : Refusal) (i : Interpreter) : Interpreter :=
  let j := i.inject request session
  { j with store := { j.store with objects := j.store.objects.push refusal.fields } }

/-- All that may happen to an interpreter when nothing of it runs: objects come in behind the
others, and the globals with the request and the session get other values. -/
structure Undisturbed (i j : Interpreter) : Prop where
  store : ∃ more, j.store = { i.store with objects := i.store.objects ++ more }
  globals (name : String) : name ≠ Service.requestGlobal → name ≠ Service.sessionGlobal →
    j.global? name = i.global? name
  task : j.task = { i.task with scope := { i.task.scope with
    globals := { i.task.scope.globals with vars := j.task.scope.globals.vars } } }
  rest : j = { i with task := j.task, store := j.store }

variable {i : Interpreter} {method path : String} {request session : Dict Value} {route : Route}
  {params : List String}

/-- A request on a route that has been found is served with the request and the session injected,
and the session is read back at the end. -/
theorem dispatch_eq (found : i.store.routes.find? method path = some (route, params)) :
    i.dispatch method path request session =
      match (i.inject request session).run? (i.evaluator.serve route params session) with
      | some (outcome, j) => (.ofOutcome outcome, j.store.fields i.nextSession, j)
      | none => (.unfinished, session, i) := by
  have served : i.evaluator.dispatch method path request session i.task i.store =
      (i.evaluator.serve route params session (i.inject request session).task
        (i.inject request session).store).capture.bind fun outcome t s =>
          Script.release (.ok (outcome.mapError Signal.toFault, s.fields i.nextSession)) t s := by
    simp only [Evaluator.dispatch, Script.bind_apply, Script.store, Script.update,
      Script.modifyScope, Script.modifyTask, Script.capture, Store.newObject, Array.size_push,
      Run.bind, found]
    refine congrArg (Run.bind · _) ?_
    funext outcome t s
    cases outcome <;> rfl
  have ran : i.run? (i.evaluator.dispatch method path request session) =
      ((i.inject request session).run? (i.evaluator.serve route params session)).map
        fun done =>
          (.ok (done.1.mapError Signal.toFault, done.2.store.fields i.nextSession), done.2) :=
    run?_of_capture (fun outcome s => .ok (outcome.mapError Signal.toFault,
      s.fields i.nextSession)) id served
  rw [dispatch, ran]
  cases (i.inject request session).run? (i.evaluator.serve route params session) with
  | none => rfl
  | some served =>
    obtain ⟨outcome, j⟩ := served
    cases outcome <;> rfl

/-- A request that a middleware refuses is answered with its redirect, and nothing runs. -/
theorem dispatch_of_refusal {refusal : Refusal}
    (found : i.store.routes.find? method path = some (route, params))
    (refused : firstRefusal? route.middleware session = some refusal) :
    i.dispatch method path request session =
      (.value (.object i.nextRedirect), session, i.refuse request session refusal) := by
  have served : (i.inject request session).run? (i.evaluator.serve route params session) =
      some (.ok (.object i.nextRedirect), i.refuse request session refusal) := by
    apply run?_of_release
    have place : i.nextRedirect =
        ⟨(i.inject request session).store.objects.size, "RedirectResponse"⟩ := by
      simp [nextRedirect, inject]
    rw [Evaluator.serve, refused, place]
    rfl
  have same : (i.refuse request session refusal).store.fields i.nextSession = session := by
    simp [refuse, inject, Store.fields, nextSession, Array.getD_eq_getD_getElem?,
      Array.getElem_push]
  rw [dispatch_eq found, served]
  simp only [same, Report.ofOutcome]

theorem fields_refuse (refusal : Refusal) :
    (i.refuse request session refusal).store.fields i.nextRedirect = refusal.fields := by
  simp [refuse, inject, Store.fields, nextRedirect, Array.getD_eq_getD_getElem?,
    Array.getElem_push]

/-- A refused request only adds objects and sets the globals of the request and the session. -/
theorem undisturbed_refuse (refusal : Refusal) :
    i.Undisturbed (i.refuse request session refusal) where
  store := by
    refine ⟨#[request, session, refusal.fields], ?_⟩
    simp only [refuse, inject, Array.push_eq_append, Array.append_assoc]
    rfl
  globals name notRequest notSession := by
    simp only [refuse, inject, global?, Scope.global?, Scope.setGlobal, Scope.modifyGlobals]
    rw [Dict.get?_insert_of_ne notSession, Dict.get?_insert_of_ne notRequest]
  task := rfl
  rest := rfl

/-- The middleware of a route stands before its handler. If the session satisfies all known
middleware of the route that has been found, the outcome is that of the handler on the parameters of
the path. Otherwise the first one that is not satisfied answers with its redirect, and the handler
does not run. The middleware of a route under the key of the request is what was open when a route
was last added under that key. -/
theorem middleware_guards_handler
    (found : i.store.routes.find? method path = some (route, params)) :
    (¬ AllSatisfied route.middleware session →
      ∃ k, FirstUnsatisfied route.middleware session k) ∧
    (∀ k, FirstUnsatisfied route.middleware session k → ∃ ref j,
      i.dispatch method path request session = (.value (.object ref), session, j) ∧
      ref.className = "RedirectResponse" ∧ j.store.fields ref = k.refusal.fields ∧
      i.Undisturbed j) ∧
    (AllSatisfied route.middleware session → i.dispatch method path request session =
      match (i.inject request session).run? (i.evaluator.handle route.handler params) with
      | some (outcome, j) => (.ofOutcome outcome, j.store.fields i.nextSession, j)
      | none => (.unfinished, session, i)) ∧
    ∀ before verb place handler later,
      i.store.routes = RouteTable.after {} (before ++ .add verb place handler :: later) →
      RouteTable.keyOf verb place = RouteTable.keyOf method path →
      (∀ c ∈ later, c.key? ≠ some (RouteTable.keyOf method path)) →
      route.middleware = (RouteTable.after {} before).middleware ∧ route.handler = handler ∧
        params = [] := by
  refine ⟨exists_firstUnsatisfied, ?_, ?_, ?_⟩
  · intro k first
    exact ⟨i.nextRedirect, i.refuse request session k.refusal,
      dispatch_of_refusal found (firstRefusal?_of_firstUnsatisfied first), rfl,
      fields_refuse k.refusal, undisturbed_refuse k.refusal⟩
  · intro pass
    have passed : i.evaluator.serve route params session =
        i.evaluator.handle route.handler params := by
      rw [Evaluator.serve, firstRefusal?_of_allSatisfied pass]
    rw [dispatch_eq found, passed]
  · intro before verb place handler later history same unchanged
    have distinct := RouteTable.nodup_keys (before ++ .add verb place handler :: later)
    have last : RouteTable.AddedLast (before ++ .add verb place handler :: later)
        ⟨Text.upper verb, Route.normalize place, handler,
          (RouteTable.after {} before).middleware⟩ :=
      ⟨before, verb, place, handler, later, rfl, rfl, by rwa [Route.key, ← RouteTable.keyOf, same]⟩
    rw [history, RouteTable.find?_of_mem distinct ((RouteTable.mem_routes_after _ _).2 last) same]
      at found
    grind

/-- Whoever has not logged in is sent to the login, by the route that was added last. -/
theorem middleware_guards_handler_login :
    let changes : List RouteTable.Change := [.push "audit", .push "auth", .push "admin",
      .add "get" "/secret/" (.text "Secret@index"), .pop, .add "GET" "secret" (.text "Secret@show"),
      .push "guest"]
    let i : Interpreter := { store := { routes := RouteTable.after {} changes } }
    ∃ ref j, i.dispatch "get" " /secret" [] [] = (.value (.object ref), [], j) ∧
      ref.className = "RedirectResponse" ∧ j.store.fields ref = Known.auth.refusal.fields ∧
      i.Undisturbed j := by
  intro changes i
  have found : i.store.routes.find? "get" " /secret" =
      some (⟨"GET", "/secret", .text "Secret@show", ["audit", "auth"]⟩, []) := by
    rfl
  refine (middleware_guards_handler found).2.1 .auth ⟨["audit"], [], rfl, ?_, ?_⟩
  · intro k mem
    cases k <;> simp [Known.name] at mem
  · rintro ⟨v, absent, _⟩
    simp [Dict.get?] at absent

end Interpreter

end RouteScript
