import RouteScript.Proofs.Eval.Hosted
import RouteScript.Proofs.Route.Gate
import RouteScript.Proofs.Session.MirrorSchedule

/-!
# Sessions are written back

Two interpreters get the same calls from their hosts. In the one, sessions are bags that are changed
in place; in the other they keep journals. The two do the same. So the session that a request leaves
behind is the one that it came with after the changes in its journal, and what scripts read from a
session in between is what its journal amounts to by then.
-/

namespace RouteScript

variable {W W' : Realm}

/-! ## Interpreters -/

/-- The realm with a number of objects. If there are more of them, they are no sessions. -/
def Realm.fit (n : Nat) (W : Realm) : Realm := W.take n ++ List.replicate (n - W.length) none

/-- A realm that has grown is found from its length, as no session was added. -/
theorem Realm.Grows.fit_eq (h : W.Grows W') : W.fit W'.length = W' := by
  obtain ⟨n, rfl⟩ := h
  simp [Realm.fit]

theorem Realm.fit_length_append (W more : Realm) : (W ++ more).fit W.length = W := by
  simp [Realm.fit]

namespace Interpreter

variable {i j : Interpreter} {request session : Dict Value}

/-- In the first interpreter sessions keep journals, and the second one holds the bags that they
amount to. All else is the same and leads to no session. -/
structure Mirrors (W : Realm) (j i : Interpreter) : Prop where
  host : j.host = .journal
  task : i.task = j.task
  store : i.store = j.store.bags W
  levels : i.levels = j.levels
  pools : PoolsMirror W j.pool i.pool
  within_task : j.task.Within W
  within_store : j.store.Within W

namespace Mirrors

variable (h : Mirrors W j i)

include h

theorem size_eq : i.store.objects.size = W.length := by
  rw [h.store, Store.size_bags, h.within_store.size]

/-- The evaluators of both interpreters do the same. -/
theorem evaluator (own : Option ObjectRef) : j.evaluator.Mirrors own i.evaluator := by
  rw [Interpreter.evaluator, Interpreter.evaluator, h.host, h.levels]
  exact Evaluator.mirrors_withLevels (HostHandler.journals_journal own) i.host j.levels

theorem evaluator_journalOf (session : ObjectRef) :
    (Evaluator.withLevels (.journalOf session) j.levels).Mirrors (some session) i.evaluator := by
  rw [Interpreter.evaluator, h.levels]
  exact Evaluator.mirrors_withLevels (HostHandler.journals_journalOf session) i.host j.levels

/-- Scripts that do the same come to the same end in both. -/
theorem run? {α : Type} {Q : Realm → α → Prop} {m m' : Script α}
    (hm : Script.Mirrors j.task.session? Q W m m') :
    (j.run? m = none ∧ i.run? m' = none) ∨ ∃ W' outcome j' i', W.Grows W' ∧
      j.run? m = some (outcome, j') ∧ i.run? m' = some (outcome, i') ∧ Mirrors W' j' i' := by
  have hrun := hm j.task j.store ⟨h.within_task, rfl⟩ h.within_store
  have hsettles := Evaluator.settle?_mirrors h.evaluator j.levels hrun h.pools
  unfold Interpreter.run?
  rw [h.task, h.store, h.levels]
  revert hsettles
  generalize j.evaluator.settle? j.levels j.pool (m j.task j.store) = settled
  generalize i.evaluator.settle? j.levels i.pool (m' j.task (j.store.bags W)) = settled'
  rintro (_ | ⟨hW, ho, ht, hs, hpools⟩)
  · exact .inl ⟨rfl, rfl⟩
  · exact .inr ⟨_, _, _, _, hW, rfl, rfl, h.host, rfl, rfl, rfl, hpools, ht.within, hs⟩

/-- What one interpreter runs, the other does with bags in place of journals. -/
theorem run {m m' : Script Value} (hm : Script.Mirrors j.task.session? Value.Within W m m') :
    ∃ W', W.Grows W' ∧ Mirrors W' (j.run m).2 (i.run m').2 := by
  unfold Interpreter.run
  obtain ⟨hnone, hnone'⟩ | ⟨W', outcome, j', i', hW, hsome, hsome', hmirrors⟩ := h.run? hm
  · rw [hnone, hnone']
    exact ⟨W, .refl W, h⟩
  · rw [hsome, hsome']
    exact ⟨W', hW, hmirrors⟩

/-- A request comes in, and its session begins a journal. -/
theorem inject (hrequest : Dict.Within W request) (hsession : Dict.Within W session)
    (hsorted : Dict.Sorted session) :
    Mirrors (W ++ [none, some session]) (j.inject request session) (i.inject request session) := by
  have hsize := h.within_store.size
  refine {
    host := h.host
    task := by simp only [Interpreter.inject, nextSession, h.task, h.size_eq, hsize]
    store := ?_
    levels := h.levels
    pools := Sleeper.poolsMirror_mono (List.prefix_append ..) h.pools
    within_task := ?_
    within_store := h.within_store.pushSession hrequest hsession }
  · simp only [Interpreter.inject, h.store]
    exact (h.within_store.pushSession_bags hsession hsorted).symm
  · have htask := h.within_task.mono (List.prefix_append W [none, some session])
    refine (Scope.Within.setGlobal htask Service.requestGlobal_ne ?_).setSession ?_
    · simp [Value.Within, Realm.Holds, hsize]
    · exact ⟨session, by simp [nextSession, hsize]⟩

/-- Both interpreters have the same routes. -/
theorem find?_eq (method path : String) :
    j.store.routes.find? method path = i.store.routes.find? method path := by
  rw [h.store]
  rfl

/-- What a request leaves behind in its session: the bag that it came with, after the changes in the
journal. -/
theorem exists_entries {ref : ObjectRef} (href : W[ref.id]? = some (some session))
    (hsession : Dict.Within W session) (hsorted : Dict.Sorted session) :
    ∃ entries, j.store.fields ref = session ++ entries ∧ i.store.fields ref =
      SessionChange.applyAll (entries.map (SessionChange.ofEntry ref.id)) session := by
  have hseals : W.Seals ref := ⟨session, href⟩
  obtain ⟨entries, hentries⟩ := h.within_store.began ref session href
  have hsame : Journal.replay ref.id session = session :=
    Journal.replay_of_sorted hsorted fun e he =>
      SessionChange.ofEntry_entry (c := .put e.1 e.2) hseals.not_holds (hsession e he)
  refine ⟨entries, hentries.symm, ?_⟩
  rw [h.store, Store.fields_bags_of_seals _ hseals, ← hentries, Journal.replay_append, hsame]

end Mirrors

/-- After a request has come in, the task works for its session. -/
theorem session?_inject (i : Interpreter) (request session : Dict Value) :
    (i.inject request session).task.session? = some i.nextSession := by
  simp [inject, Task.session?, Service.injected?, Scope.global?, Scope.setGlobal,
    Scope.modifyGlobals, Dict.get?_insert_self]

/-- A path without a route is a fault, and nothing changes. -/
theorem dispatch_eq_of_no_route {method path : String}
    (absent : i.store.routes.find? method path = none) :
    i.dispatch method path request session =
      (.fault (.invalid (.noRoute (Text.upper method) path)), session, i) := by
  have served : i.evaluator.dispatch method path request session i.task i.store =
      Script.release (.ok (.error (.invalid (.noRoute (Text.upper method) path)), session))
        i.task i.store := by
    simp only [Evaluator.dispatch, Script.bind_apply, Script.store, Run.bind, absent]
    rfl
  rw [dispatch, run?_of_release served]

end Interpreter

/-! ## Histories -/

def FileTree.IsDiscreet (files : FileTree) : Prop :=
  ∀ place source p, files.textAt place = .ok source → Program.ofSource source = .ok p →
    Stmt.allPass discreet p.statements

theorem ClassTable.isDiscreet_addHosted {t : ClassTable} (h : ∀ e ∈ t.entries, e.decl.IsDiscreet)
    (name : String) : ∀ e ∈ (t.addHosted name).entries, e.decl.IsDiscreet := by
  intro e he
  obtain ⟨old, hold, hdecl, -⟩ | ⟨-, rfl⟩ := mem_addHosted he
  · rw [hdecl]
    exact h old hold
  · exact ⟨rfl, by simp [ClassDecl.bare]⟩

/-- Classes that are hosted from the start have no code. -/
theorem ClassTable.isDiscreet_foldl_addHosted (names : List String) {t : ClassTable}
    (h : ∀ e ∈ t.entries, e.decl.IsDiscreet) :
    ∀ e ∈ (names.foldl (fun t name => t.addHosted name) t).entries, e.decl.IsDiscreet := by
  induction names generalizing t with
  | nil => exact h
  | cons name rest ih => exact ih (isDiscreet_addHosted h name)

/-- What the host of an interpreter does with it. -/
inductive HostCall where
  | execute (p : Program)
  | invoke (callee : Value) (args : List Value)
  | dispatch (method path : String) (request session : Dict Value)
  | setGlobal (name : String) (value : Value)
  | setEnvironment (name value : String)
  | setDirectory (directory : String)
  | takeOutput

namespace HostCall

/-- The interpreter after a call of its host. -/
def perform : HostCall → Interpreter → Interpreter
  | .execute p, i => (i.execute p).2
  | .invoke callee args, i => (i.invoke callee args).2
  | .dispatch method path request session, i => (i.dispatch method path request session).2.2
  | .setGlobal name value, i => i.setGlobal name value
  | .setEnvironment name value, i => i.setEnvironment name value
  | .setDirectory directory, i => i.setDirectory directory
  | .takeOutput, i => i.takeOutput.2

/-- The code that the host hands over does not name the global with the session, and the values lead
to no session. The session of a request is in the order of its keys. -/
def Within (W : Realm) : HostCall → Prop
  | .execute p => Stmt.allPass discreet p.statements
  | .invoke callee args => callee.Within W ∧ ∀ v ∈ args, v.Within W
  | .dispatch _ _ request session =>
    Dict.Within W request ∧ Dict.Within W session ∧ Dict.Sorted session
  | .setGlobal name value => name ≠ Service.sessionGlobal ∧ value.Within W
  | .setEnvironment .. | .setDirectory _ | .takeOutput => True

/-- The objects that a call brings in, unless it comes to nothing. -/
def injected : HostCall → Realm
  | .dispatch _ _ _ session => [none, some session]
  | _ => []

end HostCall

namespace Interpreter

variable {i j : Interpreter} {request session : Dict Value}

/-- Nothing has happened to the interpreter yet. -/
def IsNew (i : Interpreter) : Prop :=
  i = { create i.store.settings with
    store := { (create i.store.settings).store with
      files := i.store.files
      environment := i.store.environment
      input := i.store.input
      directory := i.store.directory
      machine := i.store.machine
      asked := i.store.asked }
    host := i.host
    levels := i.levels }

theorem isNew_create (settings : Settings) (levels : Nat) :
    IsNew { create settings with levels } := by
  simp only [IsNew, create]

/-- Two interpreters that get the same calls from their hosts, beginning with new ones. In the
second one, sessions keep journals. The realm says which objects are sessions by now. -/
inductive Alongside : Realm → Interpreter → Interpreter → Prop
  | start {i : Interpreter} (hnew : i.IsNew) (hfiles : i.store.files.IsDiscreet) :
    Alongside [] i i.journaling
  | call {W : Realm} {i j : Interpreter} (h : Alongside W i j) (c : HostCall) (hc : c.Within W) :
    Alongside ((W ++ c.injected).fit (c.perform i).store.objects.size) (c.perform i) (c.perform j)

/-- An interpreter at its start may keep journals in place of bags. -/
theorem mirrors_journaling (hnew : i.IsNew) (hfiles : i.store.files.IsDiscreet) :
    Mirrors [] i.journaling i := by
  have htask : i.task = { directory := i.store.settings.baseDirectory } := congrArg (·.task) hnew
  have hpool : i.pool = [] := congrArg pool hnew
  have hobjects : i.store.objects = #[] := congrArg (·.store.objects) hnew
  have hservices : i.store.services = Service.registry := congrArg (·.store.services) hnew
  have hfunctions : i.store.functions = [] := congrArg (·.store.functions) hnew
  have hclasses : i.store.classes =
      Service.hostedClasses.foldl (fun t name => t.addHosted name) {} :=
    congrArg (·.store.classes) hnew
  have hchannels : i.store.channels = #[] := congrArg (·.store.channels) hnew
  have hfutures : i.store.futures = #[] := congrArg (·.store.futures) hnew
  have hspawned : i.store.spawned = [] := congrArg (·.store.spawned) hnew
  have hroutes : i.store.routes = {} := congrArg (·.store.routes) hnew
  refine {
    host := rfl
    task := rfl
    store := ?_
    levels := rfl
    pools := hpool ▸ .nil
    within_task := ?_
    within_store := {
      size := by simp [journaling, hobjects]
      services := rfl
      functions := by simp [journaling, hfunctions]
      classes := ?_
      fields := by simp [Realm.Holds]
      journals := by simp [Realm.Seals]
      began := by simp
      channels := by simp [journaling, hchannels]
      futures := by simp [journaling, hfutures]
      spawned := by simp [journaling, hspawned]
      routes := by simp [journaling, hroutes]
      files := hfiles } }
  · simp only [Store.bags, journaling, ← hservices, hobjects, Array.mapIdx_empty]
    rw [← hobjects]
  · have hframe : Frame.Within [] {} := ⟨by simp, by simp, by simp⟩
    simp only [journaling, htask]
    exact ⟨hframe, by simp⟩
  · simp only [journaling, hclasses]
    exact ClassTable.isDiscreet_foldl_addHosted Service.hostedClasses (by simp)

namespace Mirrors

variable (h : Mirrors W j i)

include h

/-- A request that has found its route is served in the same way, if only its own session is
served. -/
theorem serve {ev : Evaluator} (E : ev.Mirrors (some j.nextSession) i.evaluator)
    {method path : String} {route : Route} {params : List String}
    (hrequest : Dict.Within W request) (hsession : Dict.Within W session)
    (hsorted : Dict.Sorted session)
    (found : i.store.routes.find? method path = some (route, params)) :
    ((j.inject request session).run? (ev.serve route params session) = none ∧
        (i.inject request session).run? (i.evaluator.serve route params session) = none) ∨
      ∃ W' outcome j' i', (W ++ [none, some session]).Grows W' ∧
        (j.inject request session).run? (ev.serve route params session) = some (outcome, j') ∧
        (i.inject request session).run? (i.evaluator.serve route params session) =
          some (outcome, i') ∧ Mirrors W' j' i' := by
  have hhandler : route.handler.Within W :=
    h.within_store.handler ((h.find?_eq method path).trans found)
  rw [← session?_inject j request session] at E
  exact (h.inject hrequest hsession hsorted).run?
    (Evaluator.mirrors_serve E (hhandler.mono (List.prefix_append ..)) params session)

/-- A request is served alike. Unless it has no route, it adds a request and a session to the
realm. -/
theorem dispatch (method path : String) (hrequest : Dict.Within W request)
    (hsession : Dict.Within W session) (hsorted : Dict.Sorted session) :
    ∃ W', (W' = W ∨ (W ++ [none, some session]).Grows W') ∧
      Mirrors W' (j.dispatch method path request session).2.2
        (i.dispatch method path request session).2.2 := by
  have hroutes := h.find?_eq method path
  cases found : i.store.routes.find? method path with
  | none =>
    rw [dispatch_eq_of_no_route found, dispatch_eq_of_no_route (hroutes.trans found)]
    exact ⟨W, .inl rfl, h⟩
  | some answer =>
    obtain ⟨route, params⟩ := answer
    rw [dispatch_eq found, dispatch_eq (hroutes.trans found)]
    obtain ⟨hnone, hnone'⟩ | ⟨W', outcome, j', i', hW, hsome, hsome', hmirrors⟩ :=
      h.serve (h.evaluator _) hrequest hsession hsorted found
    · rw [hnone, hnone']
      exact ⟨W, .inl rfl, h⟩
    · rw [hsome, hsome']
      exact ⟨W', .inr hW, hmirrors⟩

/-- Interpreters that do the same go on doing so after every call of their hosts. -/
theorem perform (c : HostCall) (hc : c.Within W) :
    Mirrors ((W ++ c.injected).fit (c.perform i).store.objects.size) (c.perform j)
      (c.perform i) := by
  have hgrown {j' i' : Interpreter} (h' : ∃ W', W.Grows W' ∧ Mirrors W' j' i') :
      Mirrors ((W ++ []).fit i'.store.objects.size) j' i' := by
    obtain ⟨W', hW, hmirrors⟩ := h'
    rwa [hmirrors.size_eq, List.append_nil, hW.fit_eq]
  cases c with
  | execute p => exact hgrown (h.run (Evaluator.mirrors_program (h.evaluator _) hc))
  | invoke callee args => exact hgrown (h.run (.settle ((h.evaluator _).call hc.1 hc.2)))
  | dispatch method path request session =>
    obtain ⟨W', hW, hmirrors⟩ := h.dispatch method path hc.1 hc.2.1 hc.2.2
    simp only [HostCall.perform, HostCall.injected, hmirrors.size_eq]
    obtain rfl | hW := hW
    · rwa [Realm.fit_length_append]
    · rwa [hW.fit_eq]
  | setGlobal name value =>
    refine hgrown ⟨W, .refl W, { h with task := ?_, within_task := ?_ }⟩
    · simp only [HostCall.perform, Interpreter.setGlobal, h.task]
    · exact Scope.Within.setGlobal h.within_task hc.1 hc.2
  | setEnvironment name value =>
    refine hgrown ⟨W, .refl W, { h with store := ?_, within_store := { h.within_store with } }⟩
    simp only [HostCall.perform, Interpreter.setEnvironment, h.store]
    rfl
  | setDirectory directory =>
    refine hgrown ⟨W, .refl W, { h with task := ?_, within_task := h.within_task }⟩
    simp only [HostCall.perform, Interpreter.setDirectory, h.task]
  | takeOutput =>
    refine hgrown ⟨W, .refl W, { h with store := ?_, within_store := { h.within_store with } }⟩
    simp only [HostCall.perform, Interpreter.takeOutput, h.store]
    rfl

end Mirrors

/-- Interpreters that have gone through the same requests correspond. -/
theorem Alongside.mirrors (h : Alongside W i j) : Mirrors W j i := by
  induction h with
  | start hnew hfiles => exact mirrors_journaling hnew hfiles
  | call _ c hc ih => exact ih.perform c hc

/-- The session of a request is written back, whatever has happened to the interpreter before. If
there is no route for the request, its session stays as it is. Otherwise, unless a middleware
refuses the request, its handler does what it does where all methods of sessions are carried out on
a journal for this request. The outcome is the same, be it a value or a failure, and so is
everything that the handler leaves behind, but for what the sessions hold: the session afterwards is
the one that the request came with after the changes in the journal, in order. Where sessions keep
journals, a method that is called by the name `Session` is carried out on the journal so far,
wherever the call stands, unless the name has got another meaning there. -/
theorem session_written_back (h : Alongside W i j) {method path : String}
    (hcall : (HostCall.dispatch method path request session).Within W) :
    (i.store.routes.find? method path = none →
      i.dispatch method path request session =
        (.fault (.invalid (.noRoute (Text.upper method) path)), session, i)) ∧
    (∀ route params, i.store.routes.find? method path = some (route, params) →
      Middleware.AllSatisfied route.middleware session →
      let ev := Evaluator.withLevels (.journalOf j.nextSession) j.levels
      let served := (j.inject request session).run? (ev.handle route.handler params)
      (served = none → i.dispatch method path request session = (.unfinished, session, i)) ∧
      ∀ outcome j', served = some (outcome, j') → ∃ entries i',
        j'.store.fields j.nextSession = session ++ entries ∧
        i.dispatch method path request session = (.ofOutcome outcome,
          SessionChange.applyAll (entries.map (SessionChange.ofEntry j.nextSession.id)) session,
          i') ∧
        i'.task = j'.task ∧
        i'.store = j'.store.bags ((W ++ [none, some session]).fit i'.store.objects.size)) ∧
    ∀ ref levels name access args t s, t.IsFree "Session" → s.Hosts "Session" .external →
      let ev := Evaluator.withLevels (.journalOf ref) (levels + 1)
      (Evaluator.withLevels (.journalOf ref) (levels + 2)).expr
          (.call (.member (.name "Session") name access) args) t s =
        (ev.exprs args t s).bind (ev.callMember (.classRef "Session") name) ∧
      ∀ values, ev.callMember (.classRef "Session") name values t s =
        (Service.onJournal ref name values).settle t (s.newObject "Session" []).2 := by
  have hmirrors := h.mirrors
  obtain ⟨hrequest, hsession, hsorted⟩ := hcall
  refine ⟨dispatch_eq_of_no_route, ?_, ?_⟩
  · intro route params found pass ev served
    have hserve (ev : Evaluator) : ev.serve route params session =
        ev.handle route.handler params := by
      rw [Evaluator.serve, Middleware.firstRefusal?_of_allSatisfied pass]
    have hid : j.nextSession = i.nextSession := by
      simp [nextSession, hmirrors.size_eq, hmirrors.within_store.size]
    have hserved := hmirrors.serve (hmirrors.evaluator_journalOf j.nextSession) hrequest hsession
      hsorted found
    rw [hserve, hserve] at hserved
    rw [dispatch_eq found, hserve]
    obtain ⟨hnone, hnone'⟩ | ⟨W', outcome, j', i', hW, hsome, hsome', hmirrors'⟩ := hserved
    · refine ⟨fun _ => by rw [hnone'], fun outcome j' hsome => ?_⟩
      cases hnone.symm.trans hsome
    · refine ⟨fun hnone => (by cases hnone.symm.trans hsome), fun outcome' j'' hserved => ?_⟩
      cases hsome.symm.trans hserved
      have hnext : W'[j.nextSession.id]? = some (some session) := by
        refine Realm.getElem?_of_prefix hW.isPrefix ?_
        simp [nextSession, hmirrors.within_store.size]
      obtain ⟨entries, hjournal, hbag⟩ := hmirrors'.exists_entries hnext
        (hsession.mono ((List.prefix_append ..).trans hW.isPrefix)) hsorted
      refine ⟨entries, i', hjournal, ?_, hmirrors'.task, ?_⟩
      · rw [hsome', ← hbag, hid]
      · rw [hmirrors'.size_eq, hW.fit_eq]
        exact hmirrors'.store
  · intro ref levels name access args t s hfree hhosts ev
    refine ⟨Evaluator.expr_hosted_member levels hfree hhosts name access args, fun values => ?_⟩
    rw [Evaluator.callMember_hosted ev hhosts]
    rfl

/-- A handler changes its session, forgets something and then fails: the changes are there. -/
theorem session_written_back_failure :
    let call (method : String) (args : List Expr) : Expr :=
      .call (.member (.name "Session") method .static) args
    let body : Block := [.expr (call "put" [.text "size", .int 3]),
      .expr (call "put" [.int 7, call "get" [.text "old"]]), .expr (call "forget" [.text "old"]),
      .raise (call "has" [.text "old"])]
    let p : Program := ⟨[.expr (.call (.member (.name "Router") "post" .static)
      [.text "/cart", .function ⟨"", [], some body, false⟩])]⟩
    let new : Interpreter := { create {} with levels := 60 }
    let i := (HostCall.execute p).perform new
    let j := (HostCall.execute p).perform new.journaling
    let session : Dict Value := [("old", .int 1)]
    ∃ outcome, ∃ entries : Dict Value, ∃ i',
      i.dispatch "post" "/cart" [] session = (.ofOutcome outcome,
        SessionChange.applyAll (entries.map (SessionChange.ofEntry j.nextSession.id)) session,
        i') ∧
      entries.map Prod.fst = ["size", "7", "old"] ∧
      (i.dispatch "post" "/cart" [] session).2.1.map Prod.fst = ["7", "size"] := by
  intro call body p new i j session
  let ev := Evaluator.withLevels (.journalOf j.nextSession) j.levels
  have hkeys : ((i.store.routes.find? "post" "/cart").bind fun found =>
      ((j.inject [] session).run? (ev.handle found.1.handler found.2)).map fun served =>
        (found.1.middleware, (served.2.store.fields j.nextSession).map Prod.fst)) =
      some ([], ["old", "size", "7", "old"]) := by decide +kernel
  have hfiles : new.store.files.IsDiscreet := by
    intro place source p hsource
    cases place <;> cases hsource
  have hp : Stmt.allPass discreet p.statements := by decide
  have halong : ∃ W, Alongside W i j :=
    ⟨_, .call (.start (isNew_create {} 60) hfiles) (.execute p) hp⟩
  obtain ⟨W, halong⟩ := halong
  have hcall : (HostCall.dispatch "post" "/cart" [] session).Within W :=
    ⟨Dict.within_nil, by simp [session, Dict.Within, Value.Within], List.pairwise_singleton ..⟩
  obtain ⟨⟨route, params⟩, found, hserved⟩ := Option.bind_eq_some_iff.mp hkeys
  obtain ⟨⟨outcome, j'⟩, hserved, hkeys⟩ := Option.map_eq_some_iff.mp hserved
  have hmiddleware : route.middleware = [] := congrArg Prod.fst hkeys
  have hkeys : (j'.store.fields j.nextSession).map Prod.fst = ["old", "size", "7", "old"] :=
    congrArg Prod.snd hkeys
  have hpass : Middleware.AllSatisfied route.middleware session := by
    simp [hmiddleware, Middleware.AllSatisfied]
  obtain ⟨entries, i', hjournal, hdispatch, -⟩ :=
    ((session_written_back halong hcall).2.1 route params found hpass).2 outcome j' hserved
  refine ⟨outcome, entries, i', hdispatch, ?_, by decide +kernel⟩
  simpa [hjournal, session] using hkeys

end Interpreter

end RouteScript
