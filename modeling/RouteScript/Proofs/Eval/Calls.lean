import RouteScript.Interpreter
import RouteScript.Proofs.Eval.Agreement

/-!
# Calls and their frames

Evaluation keeps the number of calls, the number of frames and the receiver in balance, and every
job inside it starts in balance. A call leaves all frames of its caller as they are.
-/

namespace RouteScript

open Store (KeepsSettings)

variable {host : HostHandler}

theorem HostHandler.none_follows {S : Store → Store → Prop} : HostHandler.none.Follows S :=
  fun _ _ _ _ => .fail _

namespace Evaluator

/-! ## Watching where jobs start -/

/-- Carry out a job only from states that are in order, and sound an alarm from others. -/
def watch (ok : Task → Store → Bool) (alarm run : Job → Script Value) : Job → Script Value :=
  fun job t s => if ok t s then run job t s else alarm job t s

/-- Carry out a job by its rule, with a watch on this job and on all jobs inside it. -/
def performWatched (host : HostHandler) (ok : Task → Store → Bool) (alarm : Job → Script Value) :
    Nat → Job → Script Value
  | 0 => watch ok alarm fun _ => Script.starve
  | levels + 1 => watch ok alarm (step ⟨performWatched host ok alarm levels, levels, host⟩)

def watched (host : HostHandler) (ok : Task → Store → Bool) (alarm : Job → Script Value)
    (levels : Nat) : Evaluator :=
  ⟨performWatched host ok alarm levels, levels, host⟩

variable {R : Store → Prop} {I : Task → Prop} {K : Task → Task → Prop} {ok : Task → Store → Bool}

/-- What a discipline asks of rules holds of all jobs, and no alarm sounds. The induction is on the
levels. -/
theorem run_keeps (D : Discipline R I K) (hhost : host.Keeps R I K)
    (hok : ∀ t s, I t → R s → ok t s) (alarm : Job → Script Value) (levels : Nat) (job : Job) :
    Script.Keeps R I K ((withLevels host levels).run job)
      ((watched host ok alarm levels).run job) := by
  intro t s ht hs
  -- the watch lets the job start; inside it, rules only start jobs from states that are in order
  induction levels generalizing job t s with
  | zero =>
    simp only [watched, performWatched, watch, hok t s ht hs, if_true]
    exact Script.Keeps.starve D.toUpkeep t s ht hs
  | succ levels ih =>
    simp only [watched, performWatched, watch, hok t s ht hs, if_true]
    let ev : Evaluator := withLevels host levels
    let ev' : Evaluator := watched host ok alarm levels
    have hrun : ∀ job, Script.Keeps R I K (ev.run job) (ev'.run job) := ih
    exact (plain_step job).keeps D False.elim (fun _ _ h hs => D.store hs h.settings_eq) ev ev' hrun rfl
      (hhost ev ev' hrun) t s ht hs

/-- Watching does not make a difference to a rule that starts in order. -/
theorem plain_keeps (D : Discipline R I K) (hhost : host.Keeps R I K)
    (hok : ∀ t s, I t → R s → ok t s) (alarm : Job → Script Value) (levels : Nat)
    {α : Type} {f : Evaluator → Script α} (hf : PlainRule Store.Step f) :
    Script.Keeps R I K (f (withLevels host levels)) (f (watched host ok alarm levels)) := by
  have hrun := run_keeps D hhost hok alarm levels
  exact hf.keeps D False.elim (fun _ _ h hs => D.store hs h.settings_eq) _ _ hrun rfl (hhost _ _ hrun)

/-- All jobs leave the frames of their task in place. -/
theorem run_agrees (G : Guard R I) (hhost : host.Follows KeepsSettings)
    (hok : ∀ t s, I t → R s → ok t s) (alarm : Job → Script Value) (levels : Nat) (job : Job) :
    Script.Agrees R I ((withLevels host levels).run job)
      ((watched host ok alarm levels).run job) :=
  run_keeps G.discipline (hhost.keeps G) hok alarm levels job

/-- A rule of the evaluator starts its jobs in order if it is started in order itself. -/
theorem plain_agrees (G : Guard R I) (hhost : host.Follows KeepsSettings)
    (hok : ∀ t s, I t → R s → ok t s) (alarm : Job → Script Value) (levels : Nat)
    {f : Evaluator → Script Value} (hf : PlainRule Store.Step f) :
    Script.Agrees R I (f (withLevels host levels)) (f (watched host ok alarm levels)) :=
  plain_keeps G.discipline (hhost.keeps G) hok alarm levels hf

end Evaluator

/-! ## Balance -/

namespace Task

/-- The task has a frame for every call, and not more calls than allowed. -/
def IsBalanced (limit : Nat) (t : Task) : Prop := t.calls = t.scope.depth ∧ t.calls ≤ limit

instance (limit : Nat) (t : Task) : Decidable (t.IsBalanced limit) :=
  inferInstanceAs (Decidable (_ ∧ _))

/-- Unless a run is given up, the task has as many calls and frames at its end as at its start, and
the same receiver. -/
def Balances (t : Task) (o : Outcome Value) (t' : Task) : Prop :=
  o ≠ .starved → t'.calls = t.calls ∧ t'.scope.depth = t.scope.depth ∧ t'.scope.this = t.scope.this

theorem Framed.balances {t t' : Task} {o : Outcome Value} (h : o ≠ .starved → t.Framed t') :
    t.Balances o t' :=
  fun ho => ⟨(h ho).calls, (h ho).scope.depth_eq, (h ho).scope.this_eq⟩

/-- A call adds one frame, and only below the limit, so that balance is a guard. -/
theorem guard_isBalanced (settings : Settings) :
    Guard (·.settings = settings) (IsBalanced settings.callLimit) where
  store hs h := h.trans hs
  framed ht h := ⟨by rw [h.calls, h.scope.depth_eq, ht.1], by rw [h.calls]; exact ht.2⟩
  enter _ ht hs hlimit := by
    subst hs
    refine ⟨?_, hlimit⟩
    simp [enter, Scope.push, Scope.depth, ht.1]

end Task

namespace Evaluator

/-- Whether a job starts with a frame for every call and not more calls than allowed. -/
def startsBalanced (t : Task) (s : Store) : Bool := t.IsBalanced s.settings.callLimit

/-- From a task in balance, statements, blocks and expressions end with the calls, the frames and
the receiver that they start with. All jobs inside them, among them the bodies of functions, start
in balance: an evaluator with an alarm for other jobs does the same. A call beyond the limit fails
before it gets a frame. -/
theorem evaluation_keeps_balance (hhost : host.Follows KeepsSettings) (levels : Nat)
    (alarm : Job → Script Value) (t : Task) (s : Store) (ht : t.IsBalanced s.settings.callLimit) :
    let ev := withLevels host levels
    let ev' := watched host startsBalanced alarm levels
    let R (s' : Store) : Prop := s'.settings = s.settings
    (∀ stmt, (ev.statement stmt t s).Agrees R t.Balances (ev'.statement stmt t s)) ∧
    (∀ last body, (ev.statements last body t s).Agrees R t.Balances
      (ev'.statements last body t s)) ∧
    (∀ e, (ev.evaluate e t s).Agrees R t.Balances (ev'.evaluate e t s)) ∧
    ∀ decl body args this t' s', decl.body = some body → s'.settings.callLimit ≤ t'.calls →
      ev.invokeFunction decl args this t' s' =
        .finished (.signal (.failed (.callDepth s'.settings.callLimit))) t' s' := by
  have hrule {f : Evaluator → Script Value} (hf : PlainRule Store.Step f) :
      (f (withLevels host levels) t s).Agrees (·.settings = s.settings) t.Balances
        (f (watched host startsBalanced alarm levels) t s) := by
    refine (plain_agrees (Task.guard_isBalanced s.settings) hhost ?_ alarm levels hf t s ht
      rfl).mono fun o t' h => Task.Framed.balances h
    intro t' s' ht' hs'
    simpa [startsBalanced, hs'] using ht'
  refine ⟨fun stmt => hrule (plain_statement stmt),
    fun last body => hrule (plain_statements last body), fun e => hrule (plain_evaluate e), ?_⟩
  intro decl body args this t' s' hbody hlimit
  rw [invokeFunction_apply _ hbody, if_pos hlimit]

/-- A function that calls itself runs into the limit and is left in balance. -/
theorem evaluation_keeps_balance_recursion :
    let call : Expr := .call (.name "f") []
    let decl : FunctionDecl := {
      name := "f", params := [], isInit := false, body := some [.expr call] }
    let s : Store := { settings := { callLimit := 2 }, functions := [("f", decl)] }
    Task.IsBalanced 2 {} ∧
      (withLevels .none 9).evaluate call {} s = .finished (.signal (.failed (.callDepth 2))) {} s ∧
      ((withLevels .none 9).evaluate call {} s).Agrees (·.settings = s.settings)
        (Task.Balances {})
        ((watched .none startsBalanced (fun _ => Script.starve) 9).evaluate call {} s) := by
  refine ⟨by decide, rfl, ?_⟩
  exact (evaluation_keeps_balance HostHandler.none_follows 9 _ {} _ (by decide)).2.2.1 _

end Evaluator

/-! ## Isolation -/

/-- A name that is bound in the frame of a call has its value there. -/
theorem Scope.get?_of_calls_eq {s s' : Scope} (h : s'.calls = s.calls) (hne : s.calls ≠ [])
    {name : String} (hname : Dict.contains name s.innermost.vars) :
    s'.get? name = s.get? name := by
  have hinnermost : s'.innermost = s.innermost := by
    unfold innermost
    rw [h]
    cases hs : s.calls with
    | nil => contradiction
    | cons frame rest => rfl
  simp [get?, owner, isInner, hinnermost, hname]

theorem guard_true : Guard (fun _ => True) fun _ => True :=
  ⟨fun _ _ => trivial, fun _ _ => trivial, fun _ _ _ _ => trivial⟩

namespace Evaluator

/-- A call leaves the frames of its caller as they are, so that what the caller has bound in its own
frame keeps its value, and it ends with a value, a thrown value or a fault. -/
theorem invokeFunction_isolated (hhost : host.Follows KeepsSettings) (levels : Nat)
    (decl : FunctionDecl) (args : List Value) (this : Option Value) (t : Task) (s : Store) :
    ((withLevels host levels).invokeFunction decl args this t s).Ends fun o t' =>
      o ≠ .starved →
        t'.scope.calls = t.scope.calls ∧
        (∀ name, t.scope.calls ≠ [] → Dict.contains name t.scope.innermost.vars →
          t'.scope.get? name = t.scope.get? name) ∧
        o.endsCall := by
  have hrun : ∀ job, Script.Agrees (fun _ => True) (fun _ => True)
      ((withLevels host levels).run job)
      ((watched host (fun _ _ => true) (fun _ => Script.starve) levels).run job) :=
    run_agrees guard_true hhost (fun _ _ _ _ => rfl) _ levels
  have hcall := invokeFunction_agrees guard_true hrun decl args this (t := t) (s := s) trivial
    trivial
  refine (hcall.mono fun o t' h ho => ?_).ends
  obtain ⟨hisolated, hends⟩ := h ho
  exact ⟨hisolated.frames, fun name hne => Scope.get?_of_calls_eq hisolated.frames hne, hends⟩

/-- A function that assigns to a name of its caller binds that name in its own frame. -/
theorem invokeFunction_isolated_assignment :
    let t : Task := { scope := { calls := [{ vars := [("x", .int 1)] }] }, calls := 1 }
    let decl : FunctionDecl := {
      name := "f", params := [], isInit := false
      body := some [.expr (.assign (.name "x") (.int 2)), .returns none] }
    let run := (withLevels .none 9).invokeFunction decl [] none t {}
    run = .finished (.value .nil) t {} ∧
      run.Ends fun o t' =>
        o ≠ .starved →
          t'.scope.calls = t.scope.calls ∧
          (∀ name, t.scope.calls ≠ [] → Dict.contains name t.scope.innermost.vars →
            t'.scope.get? name = t.scope.get? name) ∧
          o.endsCall :=
  ⟨rfl, invokeFunction_isolated HostHandler.none_follows 9 _ [] none _ {}⟩

end Evaluator

end RouteScript
