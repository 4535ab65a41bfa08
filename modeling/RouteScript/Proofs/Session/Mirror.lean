import RouteScript.Proofs.Eval.Coupling
import RouteScript.Proofs.Session.Bags

/-!
# Runs with journals and runs with bags

Two runs that do the same step by step, one on a store in which sessions keep journals, the other on
the store in which they hold the bags that the journals amount to. Both have the same task, which
works for the same session from the beginning to the end, and nothing else in it or in the stores
leads to a session. While the runs wait there may come further objects, also further sessions.
-/

namespace RouteScript

variable {α β : Type} {W W' : Realm} {own : Option ObjectRef}

/-! ## Tasks -/

/-- The variables of a task are within a realm, and it works for a session or for none. -/
structure Task.Serves (own : Option ObjectRef) (W : Realm) (t : Task) : Prop where
  within : t.Within W
  session : t.session? = own

namespace Task.Serves

variable {t : Task} {name : String} {v : Value} (h : t.Serves own W)

include h

/-- A task within a realm is within every larger one. -/
theorem mono (hW : W <+: W') : t.Serves own W' := ⟨h.within.mono hW, h.session⟩

theorem enter {this : Option Value} (hthis : ∀ v ∈ this, v.Within W) :
    (t.enter this).Serves own W :=
  ⟨h.within.enter hthis, h.session⟩

theorem leave : t.leave.Serves own W := ⟨h.within.leave, h.session⟩

theorem moved (directory : Option String) : Task.Serves own W { t with directory } :=
  ⟨h.within, h.session⟩

/-- An assignment to any other name keeps the session that the task works for. -/
theorem set (hname : name ≠ Service.sessionGlobal) (hv : v.Within W) :
    Task.Serves own W { t with scope := t.scope.set name v } where
  within := Scope.Within.set h.within hname hv
  session := by
    rw [← h.session, Task.session?, Task.session?, Service.injected?, Service.injected?,
      Scope.global?_set hname]

theorem declare (hname : name ≠ Service.sessionGlobal) (hv : v.Within W) (tag : Option Tag) :
    Task.Serves own W { t with scope := t.scope.declare name v tag } where
  within := Scope.Within.declare h.within hname hv tag
  session := by
    rw [← h.session, Task.session?, Task.session?, Service.injected?, Service.injected?,
      Scope.global?_declare hname]

end Task.Serves

/-! ## Runs -/

/-- A run that ends does so with a value in `Q`, with a signal within a realm, or it is given up. -/
def Outcome.Within (W : Realm) (Q : Realm → α → Prop) : Outcome α → Prop
  | .value a => Q W a
  | .signal x => x.Within W
  | .starved => True

namespace Run

/-- The runs do the same from a realm on. By themselves they add no session to it. -/
inductive Mirrors (own : Option ObjectRef) (Q : Realm → α → Prop) :
    Realm → Run α → Run α → Prop
  | finished {W W' : Realm} {o : Outcome α} {t : Task} {s : Store} (hW : W.Grows W')
    (ho : o.Within W' Q) (ht : t.Serves own W') (hs : s.Within W') :
    Mirrors own Q W (.finished o t s) (.finished o t (s.bags W'))
  | waiting {W W' : Realm} {r : Request} {s : Store} {resume resume' : r.Reply → Store → Run α}
    (hW : W.Grows W') (hr : r.Within W') (hs : s.Within W')
    (h : ∀ W'' reply s', W' <+: W'' → r.BringsWithin W'' reply → s'.Within W'' →
      Mirrors own Q W'' (resume reply s') (resume' reply (s'.bags W''))) :
    Mirrors own Q W (.waiting r s resume) (.waiting r (s.bags W') resume')

namespace Mirrors

variable {P : Realm → α → Prop} {r r' : Run α}

/-- Runs may also be looked at from a realm with fewer objects. -/
theorem since (hW : W.Grows W') (h : Mirrors own P W' r r') : Mirrors own P W r r' := by
  cases h with
  | finished hgrows ho ht hs => exact .finished (hW.trans hgrows) ho ht hs
  | waiting hgrows hr hs h => exact .waiting (hW.trans hgrows) hr hs h

theorem imp {Q : Realm → α → Prop} (h : Mirrors own P W r r')
    (hPQ : ∀ W' a, W <+: W' → P W' a → Q W' a) : Mirrors own Q W r r' := by
  induction h with
  | @finished W W' o t s hW ho ht hs =>
    refine .finished hW ?_ ht hs
    cases o with
    | value a => exact hPQ W' a hW.isPrefix ho
    | signal x => exact ho
    | starved => trivial
  | waiting hW hr hs _ ih =>
    refine .waiting hW hr hs fun W'' reply s' hW'' hreply hs' => ih W'' reply s' hW'' hreply hs' ?_
    exact fun W₃ a hW₃ => hPQ W₃ a (hW.isPrefix.trans (hW''.trans hW₃))

/-- Runs that do the same go on to do so, from every realm they may have come to. -/
theorem bind {Q : Realm → β → Prop} {next next' : α → Task → Store → Run β}
    (h : Mirrors own P W r r')
    (hnext : ∀ W' a t s, W <+: W' → P W' a → t.Serves own W' → s.Within W' →
      Mirrors own Q W' (next a t s) (next' a t (s.bags W'))) :
    Mirrors own Q W (r.bind next) (r'.bind next') := by
  induction h with
  | @finished W W' o t s hW ho ht hs =>
    cases o with
    | value a => exact (hnext W' a t s hW.isPrefix ho ht hs).since hW
    | signal x => exact .finished hW ho ht hs
    | starved => exact .finished hW trivial ht hs
  | waiting hW hr hs _ ih =>
    refine .waiting hW hr hs fun W'' reply s' hW'' hreply hs' => ih W'' reply s' hW'' hreply hs' ?_
    exact fun W₃ a t s hW₃ => hnext W₃ a t s (hW.isPrefix.trans (hW''.trans hW₃))

theorem capture (h : Mirrors own P W r r') :
    Mirrors own (fun W => Signal.Ends (Signal.Within W) (P W)) W r.capture r'.capture := by
  induction h with
  | @finished W W' o t s hW ho ht hs => cases o <;> exact .finished hW ho ht hs
  | waiting hW hr hs _ ih => exact .waiting hW hr hs ih

end Mirrors

end Run

/-! ## Scripts -/

def Script.Mirrors (own : Option ObjectRef) (Q : Realm → α → Prop) (W : Realm)
    (m m' : Script α) : Prop :=
  ∀ t s, t.Serves own W → s.Within W → (m t s).Mirrors own Q W (m' t (s.bags W))

abbrev Script.Discreet (own : Option ObjectRef) (Q : Realm → α → Prop) (W : Realm)
    (m : Script α) : Prop :=
  Script.Mirrors own Q W m m

abbrev Anything : Realm → α → Prop := fun _ _ => True

namespace Script.Mirrors

variable {P Q : Realm → α → Prop}

theorem pure {a : α} (ha : Q W a) : Mirrors own Q W (Pure.pure a) (Pure.pure a) :=
  fun _ _ ht hs => .finished (.refl W) ha ht hs

theorem signal {x : Signal} (hx : x.Within W) :
    Mirrors own Q W (Script.signal x) (Script.signal x) :=
  fun _ _ ht hs => .finished (.refl W) hx ht hs

theorem fail (fault : Fault) : Mirrors own Q W (Script.fail fault) (Script.fail fault) :=
  signal trivial

theorem starve : Mirrors own Q W Script.starve Script.starve :=
  fun _ _ ht hs => .finished (.refl W) trivial ht hs

/-- Scripts in a row do the same, if the second ones do in every larger realm. -/
theorem bind {Q : Realm → β → Prop} {m m' : Script α} {next next' : α → Script β}
    (h : Mirrors own P W m m')
    (hnext : ∀ W', W <+: W' → ∀ a, P W' a → Mirrors own Q W' (next a) (next' a)) :
    Mirrors own Q W (m >>= next) (m' >>= next') :=
  fun t s ht hs => (h t s ht hs).bind fun W' a t s hW ha => hnext W' hW a ha t s

theorem imp {m m' : Script α} (h : Mirrors own P W m m')
    (hPQ : ∀ W' a, W <+: W' → P W' a → Q W' a) : Mirrors own Q W m m' :=
  fun t s ht hs => (h t s ht hs).imp hPQ

theorem map {Q : Realm → β → Prop} {m m' : Script α} (f : α → β) (h : Mirrors own P W m m')
    (hf : ∀ W' a, P W' a → Q W' (f a)) : Mirrors own Q W (f <$> m) (f <$> m') :=
  h.bind fun W' _ a ha => .pure (hf W' a ha)

theorem capture {m m' : Script α} (h : Mirrors own P W m m') :
    Mirrors own (fun W => Signal.Ends (Signal.Within W) (P W)) W m.capture m'.capture :=
  fun t s ht hs => (h t s ht hs).capture

theorem ofExcept {x : Except Fault α} (h : ∀ a, x = .ok a → Q W a) :
    Mirrors own Q W (Script.ofExcept x) (Script.ofExcept x) := by
  cases x with
  | ok a => exact .pure (h a rfl)
  | error fault => exact .fail fault

theorem release {x : Except Signal α} (h : Signal.Ends (Signal.Within W) (Q W) x) :
    Mirrors own Q W (Script.release x) (Script.release x) := by
  cases x with
  | ok a => exact .pure h
  | error x => exact .signal h

theorem ite {c : Prop} [Decidable c] {m₁ m₂ m₁' m₂' : Script α} (h₁ : c → Mirrors own Q W m₁ m₁')
    (h₂ : ¬ c → Mirrors own Q W m₂ m₂') :
    Mirrors own Q W (if c then m₁ else m₂) (if c then m₁' else m₂') := by
  by_cases hc : c
  · simpa only [if_pos hc] using h₁ hc
  · simpa only [if_neg hc] using h₂ hc

/-! ### Tasks and stores -/

/-- A look at the task shows the same on both sides. -/
theorem task {next next' : Task → Script α}
    (h : ∀ t, t.Serves own W → Mirrors own Q W (next t) (next' t)) :
    Mirrors own Q W (Script.task >>= next) (Script.task >>= next') :=
  fun t s ht hs => h t ht t s ht hs

/-- The session that the task works for may be known without a look at the task. -/
theorem known {m : Script α} {next' : Task → Script α}
    (h : ∀ t, t.Serves own W → Mirrors own Q W m (next' t)) :
    Mirrors own Q W m (Script.task >>= next') :=
  fun t s ht hs => h t ht t s ht hs

/-- A script may be replaced by one that does the same for tasks of the session. -/
theorem congr {m n m' : Script α} (h : Mirrors own Q W n m')
    (hsame : ∀ t s, t.session? = own → m t s = n t s) : Mirrors own Q W m m' := by
  intro t s ht hs
  rw [hsame t s ht.session]
  exact h t s ht hs

theorem scope {next next' : Scope → Script α}
    (h : ∀ sc, sc.Within W → Mirrors own Q W (next sc) (next' sc)) :
    Mirrors own Q W (Script.scope >>= next) (Script.scope >>= next') :=
  fun t s ht hs => h t.scope ht.within t s ht hs

theorem modifyTask {f : Task → Task} (h : ∀ t, t.Serves own W → (f t).Serves own W) :
    Mirrors own Anything W (Script.modifyTask f) (Script.modifyTask f) :=
  fun t _ ht hs => .finished (.refl W) trivial (h t ht) hs

/-- A look at the store shows journals on one side and bags on the other. -/
theorem look {next next' : Store → Script α}
    (h : ∀ s, s.Within W → Mirrors own Q W (next s) (next' (s.bags W))) :
    Mirrors own Q W (Script.store >>= next) (Script.store >>= next') :=
  fun t s ht hs => h s hs t s ht hs

/-- What is done with a store may be the same whether sessions keep journals or hold bags. -/
theorem store {next next' : Store → Script α}
    (hbags : ∀ s, s.Within W → next' (s.bags W) = next' s)
    (h : ∀ s, s.Within W → Mirrors own Q W (next s) (next' s)) :
    Mirrors own Q W (Script.store >>= next) (Script.store >>= next') :=
  .look fun s hs => by
    rw [hbags s hs]
    exact h s hs

/-- What is done with a store may also depend on the task. -/
theorem storeTask {next next' : Store → Task → Script α}
    (hbags : ∀ s t, s.Within W → t.Within W → next' (s.bags W) t = next' s t)
    (h : ∀ s t, s.Within W → t.Within W → Mirrors own Q W (next s t) (next' s t)) :
    Mirrors own Q W (do let s ← Script.store; let t ← Script.task; next s t)
      (do let s ← Script.store; let t ← Script.task; next' s t) := by
  intro t s ht hs
  have hsame := h s t hs ht.within t s ht hs
  rw [← hbags s t hs ht.within] at hsame
  exact hsame

/-- A change of both stores has to lead to stores that correspond again. -/
theorem update {f : Store → α × Store}
    (h : ∀ s, s.Within W → ∃ W', W.Grows W' ∧ f (s.bags W) = ((f s).1, (f s).2.bags W') ∧
      (f s).2.Within W' ∧ Q W' (f s).1) :
    Mirrors own Q W (Script.update f) (Script.update f) := by
  intro t s ht hs
  obtain ⟨W', hW, hbags, hs', hQ⟩ := h s hs
  simp only [Script.update, hbags]
  exact .finished hW hQ (ht.mono hW.isPrefix) hs'

theorem modifyStore {f f' : Store → Store}
    (h : ∀ s, s.Within W → f' (s.bags W) = (f s).bags W ∧ (f s).Within W) :
    Mirrors own Anything W (Script.modifyStore f) (Script.modifyStore f') := by
  intro t s ht hs
  simp only [Script.modifyStore, (h s hs).1]
  exact .finished (.refl W) trivial ht (h s hs).2

theorem write (text : String) : Mirrors own Anything W (Script.write text) (Script.write text) :=
  .modifyStore fun _ hs => ⟨rfl, { hs with }⟩

/-- A field of an object that is no session is set alike on both sides. -/
theorem setField {ref : ObjectRef} (href : W.Holds ref) (name : String) {v : Value}
    (hv : v.Within W) :
    Mirrors own Anything W (Script.modifyStore (·.setField ref name v))
      (Script.modifyStore (·.setField ref name v)) :=
  .modifyStore fun _ hs => ⟨Store.modifyFields_bags_of_holds href _, hs.setField href name hv⟩

/-- A new object is the same on both sides and no session. -/
theorem newObject (className : String) {fields : Dict Value} (hfields : Dict.Within W fields) :
    Mirrors own Realm.Holds W (Script.update (·.newObject className fields))
      (Script.update (·.newObject className fields)) :=
  .update fun _ hs => ⟨W ++ [none], W.grows_concat, Store.newObject_bags hs.size _ _,
    hs.newObject className hfields⟩

/-- A request is answered alike, since it does not look at objects. -/
theorem request {r : Request} (hr : r.Within W) :
    Mirrors own (fun W => r.BringsWithin W) W (Script.request r) (Script.request r) := by
  intro t s ht hs
  simp only [Script.request, Request.attempt?_bags]
  cases hattempt : r.attempt? s with
  | some found =>
    obtain ⟨hreply, hs'⟩ := Request.within_of_attempt? hr hs hattempt
    exact .finished (.refl W) hreply ht hs'
  | none =>
    refine .waiting (.refl W) hr hs fun W' reply s' hW hreply hs' => ?_
    exact .finished (.refl W') hreply (ht.mono hW) hs'

theorem settle {m m' : Script Value} (h : Mirrors own Value.Within W m m') :
    Mirrors own Value.Within W m.settle m'.settle := by
  refine .bind h.capture fun W' _ outcome houtcome => ?_
  match outcome with
  | .ok v | .error (.returned v) => exact .pure houtcome
  | .error .broken | .error .continued | .error (.thrown _) | .error (.failed _) => exact .fail _

/-! ### Loops -/

/-- A list is worked through alike, with results within ever larger realms. -/
theorem each {f f' : α → Script β} {Q : Realm → β → Prop} {l : List α}
    (hQ : ∀ W W' b, W <+: W' → Q W b → Q W' b)
    (h : ∀ W', W <+: W' → ∀ a ∈ l, Mirrors own Q W' (f a) (f' a)) :
    Mirrors own (fun W l' => ∀ b ∈ l', Q W b) W (Script.each f l) (Script.each f' l) := by
  induction l generalizing W with
  | nil => exact .pure (by simp)
  | cons a rest ih =>
    refine .bind (h W (List.prefix_refl W) a (by simp)) fun W' hW b hb => ?_
    refine .bind (ih fun W'' hW' a' ha' => h W'' (hW.trans hW') a' (by simp [ha']))
      fun W'' hW' bs hbs => .pure ?_
    exact List.forall_mem_cons.mpr ⟨hQ W' W'' b hW' hb, hbs⟩

theorem forWhile {f f' : α → Script Bool} {l : List α}
    (h : ∀ W', W <+: W' → ∀ a ∈ l, Mirrors own Anything W' (f a) (f' a)) :
    Mirrors own Anything W (Script.forWhile f l) (Script.forWhile f' l) := by
  induction l generalizing W with
  | nil => exact .pure trivial
  | cons a rest ih =>
    refine .bind (h W (List.prefix_refl W) a (by simp)) fun W' hW _ _ =>
      .ite (fun _ => ih fun W'' hW' a' ha' => ?_) fun _ => .pure trivial
    exact h W'' (hW.trans hW') a' (by simp [ha'])

theorem repeatWhile {round round' : Script Bool} (n : Nat)
    (h : ∀ W', W <+: W' → Mirrors own Anything W' round round') :
    Mirrors own Anything W (Script.repeatWhile n round) (Script.repeatWhile n round') := by
  induction n generalizing W with
  | zero => exact .starve
  | succ n ih =>
    exact .bind (h W (List.prefix_refl W)) fun W' hW _ _ =>
      .ite (fun _ => ih fun W'' hW' => h W'' (hW.trans hW')) fun _ => .pure trivial

theorem iterate {round round' : α → Script (Option α)} (n : Nat)
    (h : ∀ W', W <+: W' → ∀ a, Mirrors own Anything W' (round a) (round' a)) (a : α) :
    Mirrors own Anything W (Script.iterate n round a) (Script.iterate n round' a) := by
  induction n generalizing W a with
  | zero => exact .starve
  | succ n ih =>
    refine .bind (h W (List.prefix_refl W) a) fun W' hW next _ => ?_
    cases next with
    | none => exact .pure trivial
    | some next => exact ih (fun W'' hW' => h W'' (hW.trans hW')) next

/-! ### Variables -/

variable {name : String} {v : Value}

/-- A change after a check is the same on both sides, since checks do not look at objects. -/
theorem checked {check : Except Fault Unit} {f : Task → Task} {t : Task} {s : Store}
    (ht : t.Serves own W) (hf : (f t).Serves own W) (hs : s.Within W) :
    (Run.checked check f t s).Mirrors own Anything W (Run.checked check f t (s.bags W)) := by
  cases check with
  | ok => exact .finished (.refl W) trivial hf hs
  | error fault => exact .finished (.refl W) trivial ht hs

/-- No assignment names the global of the session, so that the task goes on to work for it. -/
theorem assignVariable (hname : name ≠ Service.sessionGlobal) (hv : v.Within W) :
    Mirrors own Anything W (Script.assignVariable name v) (Script.assignVariable name v) := by
  intro t s ht hs
  simp only [Script.assignVariable_eq]
  exact checked ht (ht.set hname hv) hs

theorem declareVariable (hname : name ≠ Service.sessionGlobal) (tag : Tag) (hv : v.Within W) :
    Mirrors own Anything W (Script.declareVariable name tag v)
      (Script.declareVariable name tag v) := by
  intro t s ht hs
  simp only [Script.declareVariable_eq]
  exact checked ht (ht.declare hname hv _) hs

theorem bindCaught (hname : name ≠ Service.sessionGlobal) (hv : v.Within W) :
    Mirrors own Anything W (Script.modifyScope (·.declare name v none))
      (Script.modifyScope (·.declare name v none)) :=
  .modifyTask fun _ ht => ht.declare hname hv none

theorem placeInVariable (hname : name ≠ Service.sessionGlobal) (key : Option Value)
    (hv : v.Within W) :
    Mirrors own Anything W (Evaluator.placeInVariable name key v)
      (Evaluator.placeInVariable name key v) := by
  intro t s ht hs
  have hcontainer : (((t.scope.get? name).getD .nil).prepared key).Within W :=
    Value.within_prepared (Value.within_getD (Scope.Within.get? ht.within hname) Value.within_nil)
      key
  have hprepared := ht.set hname hcontainer
  simp only [Evaluator.placeInVariable_eq]
  cases hplace : (((t.scope.get? name).getD .nil).prepared key).place key v with
  | error fault => exact .finished (.refl W) trivial hprepared hs
  | ok placed =>
    have hplaced := Value.within_place hcontainer hv hplace
    cases placed with
    | container changed =>
      exact .finished (.refl W) trivial (hprepared.set hname hplaced) hs
    | field ref field => exact setField hplaced field hv _ s hprepared hs

theorem storeInVariable (hname : name ≠ Service.sessionGlobal) (key : Option Value)
    (hv : v.Within W) :
    Mirrors own Anything W (Evaluator.storeInVariable name key v)
      (Evaluator.storeInVariable name key v) := by
  intro t s ht hs
  simp only [Evaluator.storeInVariable_eq]
  split
  · exact placeInVariable hname key hv t s ht hs
  · have hnil : Mirrors own Anything W (Script.assignVariable name .nil)
        (Script.assignVariable name .nil) := assignVariable hname trivial
    exact hnil.bind (fun W' hW _ _ => placeInVariable hname key (hv.mono hW)) t s ht hs

/-- Parameters are bound alike, as none has the name of the session. -/
theorem bindParameters {params : List Parameter}
    (hparams : ∀ param ∈ params, param.name ≠ Service.sessionGlobal) {args : List Value}
    (hargs : ∀ v ∈ args, v.Within W) :
    Mirrors own Anything W (Evaluator.bindParameters params args)
      (Evaluator.bindParameters params args) := by
  induction params generalizing W args with
  | nil => exact .pure trivial
  | cons param params ih =>
    rw [List.forall_mem_cons] at hparams
    have hbind : Mirrors own Anything W (Evaluator.bindParameter param args.head?)
        (Evaluator.bindParameter param args.head?) := by
      intro t s ht hs
      have harg : (args.head?.getD .nil).Within W :=
        Value.within_getD (fun v hv => hargs v (List.mem_of_mem_head? hv)) trivial
      simp only [Evaluator.bindParameter_eq]
      exact checked ht (ht.declare hparams.1 harg _) hs
    exact hbind.bind fun W' hW _ _ =>
      ih hparams.2 fun v hv => (hargs v (List.mem_of_mem_tail hv)).mono hW

theorem declareClass {decl : ClassDecl} (hdecl : decl.IsDiscreet) :
    Mirrors own Anything W (Evaluator.declareClass decl) (Evaluator.declareClass decl) := by
  intro t s ht hs
  simp only [Evaluator.declareClass_eq, Store.classes_bags]
  cases hregister : s.classes.register decl with
  | ok classes => exact .finished (.refl W) trivial ht (hs.declareClass hdecl hregister)
  | error fault => exact .finished (.refl W) trivial ht hs

end Script.Mirrors

/-! ## Evaluators -/

/-- For tasks that work for a session, the host carries out the methods of sessions on its
journal. -/
def HostHandler.Journals (own : Option ObjectRef) (host : HostHandler) : Prop :=
  ∀ invoke className ref method args t s, t.session? = own →
    host invoke className ref method args t s = Service.onJournal own method args t s

/-- The host that looks up the session of a task keeps journals. -/
theorem HostHandler.journals_journal (own : Option ObjectRef) :
    HostHandler.journal.Journals own := by
  rintro _ _ _ method args t s rfl
  rfl

/-- The host that knows the session keeps its journal. -/
theorem HostHandler.journals_journalOf (session : ObjectRef) :
    (HostHandler.journalOf session).Journals (some session) :=
  fun _ _ _ _ _ _ _ _ => rfl

/-- The host of one evaluator carries out the methods of sessions that keep journals. Otherwise the
evaluators do the same for all jobs within a realm. -/
structure Evaluator.Mirrors (own : Option ObjectRef) (ev ev' : Evaluator) : Prop where
  rounds : ev'.rounds = ev.rounds
  host : ev.host.Journals own
  run {W : Realm} {job : Job} : job.Within W →
    Script.Mirrors own Value.Within W (ev.run job) (ev'.run job)

namespace Evaluator.Mirrors

variable {ev ev' : Evaluator} (E : ev.Mirrors own ev')

include E

theorem expr {e : Expr} (h : e.passes discreet) :
    Script.Mirrors own Value.Within W (ev.expr e) (ev'.expr e) :=
  E.run (show Job.Within W (.expr e) from h)

theorem exprs {l : List Expr} (h : ∀ e ∈ l, e.passes discreet) :
    Script.Mirrors own (fun W values => ∀ v ∈ values, v.Within W) W (ev.exprs l) (ev'.exprs l) :=
  .each (fun _ _ _ hW hv => hv.mono hW) fun _ _ e he => E.expr (h e he)

theorem test {e : Expr} (h : e.passes discreet) :
    Script.Mirrors own Anything W (ev.test e) (ev'.test e) :=
  .bind (E.expr h) fun _ _ _ _ => .pure trivial

theorem block {body : Block} (h : Stmt.allPass discreet body) :
    Script.Mirrors own Value.Within W (ev.block body) (ev'.block body) :=
  E.run (show Job.Within W (.block body) from h)

theorem call {callee : Value} (hcallee : callee.Within W) {args : List Value}
    (hargs : ∀ v ∈ args, v.Within W) :
    Script.Mirrors own Value.Within W (ev.run (.call callee args)) (ev'.run (.call callee args)) :=
  E.run (show Job.Within W (.call callee args) from ⟨hcallee, hargs⟩)

/-- A call of discreet code does the same on both sides. -/
theorem invokeFunction {decl : FunctionDecl} (hdecl : decl.IsDiscreet) {args : List Value}
    (hargs : ∀ v ∈ args, v.Within W) {this : Option Value} (hthis : ∀ v ∈ this, v.Within W) :
    Script.Mirrors own Value.Within W (ev.invokeFunction decl args this)
      (ev'.invokeFunction decl args this) := by
  cases hbody : decl.body with
  | none =>
    simp only [Evaluator.invokeFunction, hbody]
    exact .fail _
  | some body =>
    have hparams : ∀ param ∈ decl.params, param.name ≠ Service.sessionGlobal := by
      simpa [FunctionDecl.hasDiscreetParams] using hdecl.params
    have hcode : Stmt.allPass discreet body := FunctionDecl.passes_iff.mp hdecl.body body hbody
    have hinside := (Script.Mirrors.bindParameters hparams hargs).bind
      fun _ _ _ _ => E.block hcode
    intro t s ht hs
    simp only [Evaluator.invokeFunction_apply _ hbody]
    by_cases hlimit : s.settings.callLimit ≤ t.calls
    · have hlimit' : (s.bags W).settings.callLimit ≤ t.calls := hlimit
      simp only [if_pos hlimit, if_pos hlimit']
      exact .finished (.refl W) trivial ht hs
    have hlimit' : ¬ (s.bags W).settings.callLimit ≤ t.calls := hlimit
    simp only [if_neg hlimit, if_neg hlimit']
    refine (hinside _ s (ht.enter hthis) hs).capture.bind fun W' outcome t s _ houtcome ht hs => ?_
    have hresult : Script.Discreet own Value.Within W' (callResult outcome) := by
      cases outcome with
      | ok v => exact .pure houtcome
      | error x =>
        cases x with
        | returned v => exact .pure houtcome
        | broken | continued => exact .fail _
        | thrown | failed => exact .signal houtcome
    exact hresult _ s ht.leave hs

/-- A loaded script is discreet, since all files are. -/
theorem load (path : String) : Script.Mirrors own Anything W (ev.load path) (ev'.load path) := by
  intro t s ht hs
  have hlocate : locate? path t (s.bags W) = locate? path t s := rfl
  have hread (place : List String) : readScript path place (s.bags W) = readScript path place s :=
    rfl
  simp only [load_eq, hlocate, hread]
  cases locate? path t s with
  | none => exact .finished (.refl W) trivial ht hs
  | some place =>
    by_cases hloaded : place ∈ s.loaded
    · have hloaded' : place ∈ (s.bags W).loaded := hloaded
      simp only [if_pos hloaded, if_pos hloaded']
      exact .finished (.refl W) trivial ht hs
    have hloaded' : place ∉ (s.bags W).loaded := hloaded
    simp only [if_neg hloaded, if_neg hloaded']
    have hnoted : Store.Within W { s with loaded := place :: s.loaded } := { hs with }
    cases hscript : readScript path place s with
    | error fault => exact .finished (.refl W) trivial ht hnoted
    | ok body =>
      obtain ⟨source, program, hsource, hprogram, rfl⟩ := readScript_eq_ok_iff.mp hscript
      have hcode : Job.Within W (.load place program.statements) :=
        hs.files place source program hsource hprogram
      have hrun := E.run hcode
      have hinside := hrun _ _ (ht.moved (some (Path.ofNames place.dropLast))) hnoted
      refine hinside.capture.bind fun W' outcome t s _ houtcome ht hs => ?_
      cases outcome with
      | ok v => exact .finished (.refl W') trivial (ht.moved _) hs
      | error x => exact .finished (.refl W') houtcome (ht.moved _) hs

end Evaluator.Mirrors

end RouteScript
