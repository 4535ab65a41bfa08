import RouteScript.Interpreter
import RouteScript.Proofs.Eval.Agreement
import RouteScript.Proofs.Eval.FlowEvaluator
import RouteScript.Proofs.Eval.ObjectGraph

/-!
# Coupled runs

Two runs on one store that do the same step by step, from tasks that look alike to the code that
runs. What they do to the store, and what other tasks do to it while they wait, makes it grow in a
given sense. Rules under a policy are coupled if the jobs, calls and scripts inside them are.
-/

namespace RouteScript

/-! ## Growth -/

/-- The files, the working directory and the scripts that have been loaded and started are the
same. -/
structure Store.SameFiles (s s' : Store) : Prop where
  files : s'.files = s.files
  directory : s'.directory = s.directory
  loaded : s'.loaded = s.loaded
  executed : s'.executed = s.executed

/-- No change that a rule makes by itself touches files or the record of scripts. -/
theorem Store.Step.sameFiles {s s' : Store} (h : s.Step s') : s.SameFiles s' := by
  cases h <;> exact ⟨rfl, rfl, rfl, rfl⟩

/-- Nor does a request that is answered. -/
theorem Request.sameFiles_of_attempt? {r : Request} {s s' : Store} {reply : r.Reply}
    (h : r.attempt? s = some (reply, s')) : s.SameFiles s' := by
  obtain ⟨channels, rfl⟩ := r.eq_of_attempt? h
  exact ⟨rfl, rfl, rfl, rfl⟩

structure Growth where
  rel : Store → Store → Prop
  trans {s s' s'' : Store} : rel s s' → rel s' s'' → rel s s''
  same {s s' : Store} : s.SameFiles s' → rel s s'

theorem Growth.refl (G : Growth) (s : Store) : G.rel s s := G.same ⟨rfl, rfl, rfl, rfl⟩

/-! ## Runs -/

namespace Run

variable {α β : Type} {π : Policy} {G : Growth} {s₀ : Store} {r r' : Run α}

/-- From a store on, the runs do the same as long as other tasks let the store grow and obey the
policy while they wait, and they end with `P`. -/
inductive Coupled (π : Policy) (G : Growth) (P : Outcome α → Task → Task → Prop) :
    Store → Run α → Run α → Prop
  | finished {o : Outcome α} {t t' : Task} {s₀ s : Store} (hgrows : G.rel s₀ s) (hs : s.Obeys π)
    (h : P o t t') : Coupled π G P s₀ (.finished o t s) (.finished o t' s)
  | waiting {r : Request} {s₀ s : Store} {resume resume' : r.Reply → Store → Run α}
    (hgrows : G.rel s₀ s) (hs : s.Obeys π)
    (h : ∀ reply s', G.rel s s' → s'.Obeys π → r.Brings π reply →
      Coupled π G P s' (resume reply s') (resume' reply s')) :
    Coupled π G P s₀ (.waiting r s resume) (.waiting r s resume')

namespace Coupled

variable {P : Outcome α → Task → Task → Prop}

theorem mono {Q : Outcome α → Task → Task → Prop} (h : r.Coupled π G P s₀ r')
    (hPQ : ∀ o t t', P o t t' → Q o t t') : r.Coupled π G Q s₀ r' := by
  induction h with
  | finished hgrows hs h => exact .finished hgrows hs (hPQ _ _ _ h)
  | waiting hgrows hs _ ih => exact .waiting hgrows hs ih

/-- A run may also be looked at from an earlier store. -/
theorem since {s : Store} (hs : G.rel s s₀) (h : r.Coupled π G P s₀ r') :
    r.Coupled π G P s r' := by
  cases h with
  | finished hgrows hs' h => exact .finished (G.trans hs hgrows) hs' h
  | waiting hgrows hs' h => exact .waiting (G.trans hs hgrows) hs' h

/-- Coupled runs stay coupled, if what follows is coupled from every end they may have in common. -/
theorem bind {Q : Outcome β → Task → Task → Prop} {next next' : α → Task → Store → Run β}
    (h : r.Coupled π G P s₀ r')
    (hvalue : ∀ a t t' s, G.rel s₀ s → s.Obeys π → P (.value a) t t' →
      (next a t s).Coupled π G Q s (next' a t' s))
    (hsignal : ∀ x t t', P (.signal x) t t' → Q (.signal x) t t')
    (hstarved : ∀ t t', P .starved t t' → Q .starved t t') :
    (r.bind next).Coupled π G Q s₀ (r'.bind next') := by
  induction h with
  | @finished o t t' s₀ s hgrows hs h =>
    cases o with
    | value a => exact (hvalue a t t' s hgrows hs h).since hgrows
    | signal x => exact .finished hgrows hs (hsignal x t t' h)
    | starved => exact .finished hgrows hs (hstarved t t' h)
  | @waiting r s₀ s resume resume' hgrows hs _ ih =>
    refine .waiting hgrows hs fun reply s' hgrows' hs' hreply => ih reply s' hgrows' hs' hreply ?_
    intro a t t' s'' hgrows''
    exact hvalue a t t' s'' (G.trans hgrows (G.trans hgrows' hgrows''))

theorem capture {Q : Outcome (Except Signal α) → Task → Task → Prop}
    (h : r.Coupled π G P s₀ r') (hvalue : ∀ a t t', P (.value a) t t' → Q (.value (.ok a)) t t')
    (hsignal : ∀ x t t', P (.signal x) t t' → Q (.value (.error x)) t t')
    (hstarved : ∀ t t', P .starved t t' → Q .starved t t') :
    r.capture.Coupled π G Q s₀ r'.capture := by
  induction h with
  | @finished o t t' s₀ s hgrows hs h =>
    cases o with
    | value a => exact .finished hgrows hs (hvalue a t t' h)
    | signal x => exact .finished hgrows hs (hsignal x t t' h)
    | starved => exact .finished hgrows hs (hstarved t t' h)
  | waiting hgrows hs _ ih => exact .waiting hgrows hs ih

end Coupled

end Run

/-! ## Scripts -/

/-- Which stores and which pairs of tasks belong together. -/
structure Coupling (π : Policy) where
  growth : Growth
  store : Store → Prop
  tasks : Task → Task → Prop
  keeps {s s' : Store} : store s → growth.rel s s' → store s'

def Coupling.between {π : Policy} (C : Coupling π) (tasks : Task → Task → Prop) : Coupling π :=
  { C with tasks }

/-- Unless runs are given up, they end with a value in `Q` or a signal in `A`, and with tasks that
belong together. -/
def EndsTogether (π : Policy) (tasks : Task → Task → Prop) (A : Signal → Prop) {α : Type}
    (Q : α → Prop) : Outcome α → Task → Task → Prop
  | .value a, t, t' => Q a ∧ t.Obeys π ∧ tasks t t'
  | .signal x, t, t' => A x ∧ t.Obeys π ∧ tasks t t'
  | .starved, _, _ => True

theorem EndsTogether.imp {π : Policy} {tasks tasks' : Task → Task → Prop} {A : Signal → Prop}
    {α : Type} {Q : α → Prop} {o : Outcome α} {t t' : Task}
    (h : EndsTogether π tasks A Q o t t') (htasks : tasks t t' → tasks' t t') :
    EndsTogether π tasks' A Q o t t' := by
  cases o with
  | value a => exact ⟨h.1, h.2.1, htasks h.2.2⟩
  | signal x => exact ⟨h.1, h.2.1, htasks h.2.2⟩
  | starved => trivial

/-- Whatever the runs end with, what follows takes it as a value. -/
theorem Run.Coupled.captureBind {π : Policy} {G : Growth} {tasks tasks' : Task → Task → Prop}
    {A A' : Signal → Prop} {α β : Type} {Q : α → Prop} {Q' : β → Prop} {s₀ : Store} {r r' : Run α}
    {next next' : Except Signal α → Task → Store → Run β}
    (h : r.Coupled π G (EndsTogether π tasks A Q) s₀ r')
    (hnext : ∀ outcome t t' s, G.rel s₀ s → s.Obeys π → Signal.Ends A Q outcome → t.Obeys π →
      tasks t t' → (next outcome t s).Coupled π G (EndsTogether π tasks' A' Q') s
        (next' outcome t' s)) :
    (r.capture.bind next).Coupled π G (EndsTogether π tasks' A' Q') s₀ (r'.capture.bind next') := by
  have hcaptured := h.capture
    (Q := fun o t t' => (∀ x, o ≠ .signal x) ∧ EndsTogether π tasks A (Signal.Ends A Q) o t t')
    (fun _ _ _ h => ⟨by simp, h⟩) (fun _ _ _ h => ⟨by simp, h⟩) fun _ _ h => ⟨by simp, h⟩
  refine hcaptured.bind ?_ (fun x _ _ h => absurd rfl (h.1 x)) fun _ _ _ => trivial
  intro outcome t t' s hgrows hs hends
  obtain ⟨-, houtcome, ht, htasks⟩ := hends
  exact hnext outcome t t' s hgrows hs houtcome ht htasks

def Coupling.Relates {π : Policy} (C : Coupling π) (A : Signal → Prop) {α : Type} (Q : α → Prop)
    (m m' : Script α) : Prop :=
  ∀ t t' s, C.tasks t t' → t.Obeys π → s.Obeys π → C.store s →
    (m t s).Coupled π C.growth (EndsTogether π C.tasks A Q) s (m' t' s)

namespace Coupling.Relates

variable {π : Policy} {C : Coupling π} {A : Signal → Prop} {α β : Type} {Q : α → Prop}

theorem pure {a : α} (ha : Q a) : C.Relates A Q (Pure.pure a) (Pure.pure a) :=
  fun _ _ s htasks ht hs _ => .finished (C.growth.refl s) hs ⟨ha, ht, htasks⟩

theorem signal {x : Signal} (hx : A x) : C.Relates A Q (Script.signal x) (Script.signal x) :=
  fun _ _ s htasks ht hs _ => .finished (C.growth.refl s) hs ⟨hx, ht, htasks⟩

theorem starve : C.Relates A Q Script.starve Script.starve :=
  fun _ _ s _ _ hs _ => .finished (C.growth.refl s) hs trivial

/-- Related scripts in a row are related, if the second ones are for all values that the first may
give. -/
theorem bind {Q' : β → Prop} {m m' : Script α} {next next' : α → Script β}
    (h : C.Relates A Q m m') (hnext : ∀ a, Q a → C.Relates A Q' (next a) (next' a)) :
    C.Relates A Q' (m >>= next) (m' >>= next') := by
  intro t t' s htasks ht hs hstore
  refine (h t t' s htasks ht hs hstore).bind ?_ (fun _ _ _ h => h) fun _ _ h => h
  intro a u u' s' hgrows hs' hends
  obtain ⟨ha, hu, htasks'⟩ := hends
  exact hnext a ha u u' s' htasks' hu hs' (C.keeps hstore hgrows)

/-- Captured scripts are related, with the admitted signals among their values. -/
theorem capture {m m' : Script α} (h : C.Relates A Q m m') :
    C.Relates A (Signal.Ends A Q) m.capture m'.capture :=
  fun t t' s htasks ht hs hstore =>
    (h t t' s htasks ht hs hstore).capture (fun _ _ _ h => h) (fun _ _ _ h => h) fun _ _ h => h

theorem mono {A' : Signal → Prop} {Q' : α → Prop} {m m' : Script α} (h : C.Relates A Q m m')
    (hA : ∀ x, A x → A' x) (hQ : ∀ a, Q a → Q' a) : C.Relates A' Q' m m' := by
  refine fun t t' s htasks ht hs hstore => (h t t' s htasks ht hs hstore).mono fun o u u' h => ?_
  cases o with
  | value a => exact ⟨hQ a h.1, h.2⟩
  | signal x => exact ⟨hA x h.1, h.2⟩
  | starved => trivial

/-! ### Variables -/

/-- A change that is made after a check is coupled, since both tasks pass or fail the check
alike. -/
theorem checked {check : Except Fault Unit} {f : Task → Task} (hA : ∀ fault, A (.failed fault))
    {t t' : Task} {s : Store} (htasks : C.tasks t t') (ht : t.Obeys π) (hs : s.Obeys π)
    (hf : (f t).Obeys π) (hftasks : C.tasks (f t) (f t')) :
    (Run.checked check f t s).Coupled π C.growth (EndsTogether π C.tasks A fun _ => True) s
      (Run.checked check f t' s) := by
  cases check with
  | ok => exact .finished (C.growth.refl s) hs ⟨trivial, hf, hftasks⟩
  | error fault => exact .finished (C.growth.refl s) hs ⟨hA fault, ht, htasks⟩

/-- Parameters are bound alike in tasks where declarations keep the coupling. -/
theorem bindParameters (hA : ∀ fault, A (.failed fault))
    (hdeclare : ∀ t t', C.tasks t t' → ∀ name v tag,
      C.tasks (t.declare name v tag) (t'.declare name v tag))
    (params : List Parameter) {args : List Value} (hargs : ∀ v ∈ args, v.Obeys π) :
    C.Relates A (fun _ => True) (Evaluator.bindParameters params args)
      (Evaluator.bindParameters params args) := by
  induction params generalizing args with
  | nil => exact pure trivial
  | cons param params ih =>
    have hbind : C.Relates A (fun _ => True) (Evaluator.bindParameter param args.head?)
        (Evaluator.bindParameter param args.head?) := by
      intro t t' s htasks ht hs _
      simp only [Evaluator.bindParameter_eq]
      have harg : (args.head?.getD .nil).Obeys π :=
        Value.obeys_getD (fun v hv => hargs v (List.mem_of_mem_head? hv)) trivial
      exact checked hA htasks ht hs (Scope.Obeys.declare ht harg _ _) (hdeclare t t' htasks _ _ _)
    exact hbind.bind fun _ _ => ih fun v hv => hargs v (List.mem_of_mem_tail hv)

end Coupling.Relates

/-- What the tasks of a coupling have in common for rules with a given reach. -/
structure Coupling.Fits {π : Policy} (C : Coupling π) (R : Reach π) : Prop where
  alike {t t' : Task} : C.tasks t t' → t.Alike R.atHome t'
  set {t t' : Task} : R.atHome → C.tasks t t' → ∀ name v, C.tasks (t.set name v) (t'.set name v)
  declare {t t' : Task} : R.atHome → C.tasks t t' → ∀ name v tag,
    C.tasks (t.declare name v tag) (t'.declare name v tag)
  start : R.starts → ∀ place s, C.growth.rel s (s.start place)

namespace Coupling.Fits

variable {π : Policy} {C : Coupling π} {R : Reach π} (hC : C.Fits R) (home : R.atHome)
  {value : Value} (hvalue : value.Obeys π)

include hC home hvalue

/-- An assignment in sight of both tasks passes or fails in both. -/
theorem assignVariable (name : String) : C.Relates R.Admits (fun _ => True)
    (Script.assignVariable name value) (Script.assignVariable name value) := by
  intro t t' s htasks ht hs _
  simp only [Script.assignVariable_eq, (hC.alike htasks).tag?_eq home]
  exact Relates.checked R.admits_failed htasks ht hs
    (Scope.Obeys.set ht hvalue name) (hC.set home htasks name value)

theorem declareVariable (name : String) (tag : Tag) : C.Relates R.Admits (fun _ => True)
    (Script.declareVariable name tag value) (Script.declareVariable name tag value) := by
  intro t t' s htasks ht hs _
  simp only [Script.declareVariable_eq]
  exact Relates.checked R.admits_failed htasks ht hs
    (Scope.Obeys.declare ht hvalue name _) (hC.declare home htasks name value _)

theorem placeInVariable (name : String) (key : Option Value) : C.Relates R.Admits (fun _ => True)
    (Evaluator.placeInVariable name key value) (Evaluator.placeInVariable name key value) := by
  intro t t' s htasks ht hs _
  simp only [Evaluator.placeInVariable_eq, (hC.alike htasks).get?_eq home]
  have hcontainer : (((t.scope.get? name).getD .nil).prepared key).Obeys π :=
    Value.obeys_prepared (Value.obeys_getD (Scope.Obeys.get? ht) Value.obeys_nil) key
  have hprepared := Scope.Obeys.set ht hcontainer name
  have htasks' := hC.set home htasks name (((t.scope.get? name).getD .nil).prepared key)
  split
  · exact .finished (C.growth.refl s) hs ⟨R.admits_failed _, hprepared, htasks'⟩
  · rename_i hplace
    have hchanged := Value.obeys_place hcontainer hvalue hplace
    exact .finished (C.growth.refl s) hs
      ⟨trivial, Scope.Obeys.set hprepared hchanged name, hC.set home htasks' name _⟩
  · exact .finished (C.growth.same ⟨rfl, rfl, rfl, rfl⟩) (hs.setField _ _ hvalue)
      ⟨trivial, hprepared, htasks'⟩

theorem storeInVariable (name : String) (key : Option Value) : C.Relates R.Admits (fun _ => True)
    (Evaluator.storeInVariable name key value) (Evaluator.storeInVariable name key value) := by
  have hplace := placeInVariable hC home hvalue name key
  have hnil := assignVariable hC home Value.obeys_nil name
  intro t t' s htasks ht hs hstore
  simp only [Evaluator.storeInVariable_eq, (hC.alike htasks).contains_eq home]
  split
  · exact hplace t t' s htasks ht hs hstore
  · exact hnil.bind (fun _ _ => hplace) t t' s htasks ht hs hstore

end Coupling.Fits

/-! ## Calls -/

namespace Coupling.Relates

variable {π : Policy} {C : Coupling π} {R : Reach π}

/-- A call gives its caller the same outcome in both runs. -/
theorem callResult {outcome : Except Signal Value}
    (houtcome : Signal.Ends (Signal.Obeys π) (Value.Obeys π) outcome) :
    C.Relates R.Admits (Value.Obeys π) (Evaluator.callResult outcome)
      (Evaluator.callResult outcome) := by
  match outcome with
  | .ok v | .error (.returned v) => exact .pure houtcome
  | .error .broken | .error .continued => exact .signal (R.admits_failed _)
  | .error (.thrown _) | .error (.failed _) =>
    exact .signal ⟨houtcome, by simp [Signal.isJump]⟩

/-- Calls are coupled if the bodies of functions are, from the tasks that calls lead to. -/
theorem invokeFunction {ev ev' : Evaluator} {decl : FunctionDecl} {args : List Value}
    {this : Option Value} (hargs : ∀ v ∈ args, v.Obeys π) (hthis : ∀ v ∈ this, v.Obeys π)
    (hcalls : ∀ t t', C.tasks t t' → t'.calls = t.calls)
    (hbody : ∀ t t', C.tasks t t' → ∃ inside : Task → Task → Prop,
      inside (t.enter this) (t'.enter this) ∧
      (∀ u u', inside u u' → ∀ name v tag,
        inside (u.declare name v tag) (u'.declare name v tag)) ∧
      (∀ u u', inside u u' → C.tasks u.leave u'.leave) ∧
      ∀ body, decl.body = some body →
        (C.between inside).Relates (Signal.Obeys π) (Value.Obeys π) (ev.block body)
          (ev'.block body)) :
    C.Relates R.Admits (Value.Obeys π) (ev.invokeFunction decl args this)
      (ev'.invokeFunction decl args this) := by
  intro t t' s htasks ht hs hstore
  cases hdecl : decl.body with
  | none =>
    simp only [Evaluator.invokeFunction, hdecl]
    exact .finished (C.growth.refl s) hs ⟨R.admits_failed _, ht, htasks⟩
  | some body =>
    simp only [Evaluator.invokeFunction_apply _ hdecl, hcalls t t' htasks]
    split
    · exact .finished (C.growth.refl s) hs ⟨R.admits_failed _, ht, htasks⟩
    · obtain ⟨inside, henter, hdeclare, hleave, hblock⟩ := hbody t t' htasks
      have hscript := (bindParameters (C := C.between inside)
        (A := Signal.Obeys π) (fun _ => trivial) hdeclare decl.params hargs).bind
          fun _ _ => hblock body hdecl
      have hrun := hscript _ _ s henter (ht.enter hthis) hs hstore
      refine hrun.captureBind fun outcome u u' s' hgrows hs' houtcome hu hinside => ?_
      exact callResult houtcome u.leave u'.leave s' (hleave u u' hinside) hu.leave hs'
        (C.keeps hstore hgrows)

end Coupling.Relates

/-! ## Scripts that are loaded -/

/-- Where a script is looked for depends on the directory of the task only. -/
theorem Evaluator.locate?_congr (path : String) {t t' : Task} (h : t'.directory = t.directory)
    (s : Store) : locate? path t' s = locate? path t s := by
  simp only [locate?, globalCandidates, candidates, h]

/-- A script is read if there is a text in its place that parses. -/
theorem Evaluator.readScript_eq_ok_iff {path : String} {place : List String} {s : Store}
    {body : Block} : readScript path place s = .ok body ↔
      ∃ source program, s.files.textAt place = .ok source ∧
        Program.ofSource source = .ok program ∧ program.statements = body := by
  unfold readScript
  cases s.files.textAt place with
  | error problem => simp
  | ok source => cases hprogram : Program.ofSource source <;> simp [hprogram]

/-- Loading a script, as a run. -/
theorem Evaluator.load_eq (ev : Evaluator) (path : String) (t : Task) (s : Store) :
    ev.load path t s =
      match locate? path t s with
      | none => .finished (.signal (.failed (.load path .notFound))) t s
      | some place =>
        if place ∈ s.loaded then .finished (.value ()) t s
        else
          let noted : Store := { s with loaded := place :: s.loaded }
          match readScript path place s with
          | .error fault => .finished (.signal (.failed fault)) t noted
          | .ok body =>
            (ev.run (.load place body) { t with directory := some (Path.ofNames place.dropLast) }
              noted).capture.bind fun outcome t' s' =>
                (Script.release outcome { t' with directory := t.directory } s').bind
                  fun _ t' s' => .finished (.value ()) t' s' := by
  simp only [load, Script.bind_apply, Script.store, Script.task, Run.bind]
  cases locate? path t s with
  | none => rfl
  | some place =>
    by_cases hplace : place ∈ s.loaded
    · simp only [hplace, List.contains_eq_mem, decide_true, if_true]
      rfl
    · simp only [hplace, List.contains_eq_mem, decide_false, if_false]
      cases readScript path place s <;> rfl

/-- Loading a script is coupled if its statements are, with its own directory in place of the one
that counts before and afterwards. -/
theorem Coupling.Relates.load {π : Policy} {C : Coupling π} {R : Reach π} {ev ev' : Evaluator}
    (path : String) (hdirectory : ∀ t t', C.tasks t t' → t'.directory = t.directory)
    (hgrows : ∀ t s place, Evaluator.locate? path t s = some place → place ∉ s.loaded →
      C.growth.rel s { s with loaded := place :: s.loaded })
    (hscript : ∀ t t' s place body, C.tasks t t' → t.Obeys π → s.Obeys π → C.store s →
      Evaluator.locate? path t s = some place → place ∉ s.loaded →
      Evaluator.readScript path place s = .ok body →
      (ev.run (.load place body) { t with directory := some (Path.ofNames place.dropLast) }
        { s with loaded := place :: s.loaded }).Coupled π C.growth
        (EndsTogether π (fun u u' => C.tasks { u with directory := t.directory }
          { u' with directory := t.directory }) R.Admits (Value.Obeys π)) s
        (ev'.run (.load place body) { t' with directory := some (Path.ofNames place.dropLast) }
          { s with loaded := place :: s.loaded })) :
    C.Relates R.Admits (fun _ => True) (ev.load path) (ev'.load path) := by
  intro t t' s htasks ht hs hstore
  simp only [Evaluator.load_eq, Evaluator.locate?_congr path (hdirectory t t' htasks),
    hdirectory t t' htasks]
  split
  · exact .finished (C.growth.refl s) hs ⟨R.admits_failed _, ht, htasks⟩
  · rename_i place hplace
    split
    · exact .finished (C.growth.refl s) hs ⟨trivial, ht, htasks⟩
    · rename_i hnew
      have hnoted := hgrows t s place hplace hnew
      have hs' : Store.Obeys π { s with loaded := place :: s.loaded } := { hs with }
      split
      · exact .finished hnoted hs' ⟨R.admits_failed _, ht, htasks⟩
      · rename_i body hbody
        have hrun := hscript t t' s place body htasks ht hs hstore hplace hnew hbody
        refine hrun.captureBind fun outcome u u' s' _ hs' houtcome hu htasks' => ?_
        cases outcome with
        | ok v => exact .finished (C.growth.refl s') hs' ⟨trivial, hu, htasks'⟩
        | error x => exact .finished (C.growth.refl s') hs' ⟨houtcome, hu, htasks'⟩

/-! ## Rules -/

structure Coupling.Starts {π : Policy} (C : Coupling π) (R : Reach π) (ev ev' : Evaluator) :
    Prop where
  run {job : Job} : R.job job →
    C.Relates R.Admits (Value.Obeys π) (ev.run job) (ev'.run job)
  invoke {decl : FunctionDecl} {args : List Value} {this : Option Value} :
    decl.passes π.code → (∀ v ∈ args, v.Obeys π) → (∀ v ∈ this, v.Obeys π) →
    C.Relates R.Admits (Value.Obeys π) (ev.invokeFunction decl args this)
      (ev'.invokeFunction decl args this)
  load (path : String) : R.atHome →
    C.Relates R.Admits (fun _ => True) (ev.load path) (ev'.load path)

/-- A rule under a policy is coupled, if what it starts and what the host does are. -/
theorem Flow.relates {π : Policy} {R : Reach π} {C : Coupling π} (hC : C.Fits R)
    {ev ev' : Evaluator} (h : C.Starts R ev ev') (hrounds : ev'.rounds = ev.rounds)
    (hhost : ∀ className ref method args, (∀ v ∈ args, v.Obeys π) →
      C.Relates R.Admits (Value.Obeys π) (ev.host ev.invoke className ref method args)
        (ev'.host ev'.invoke className ref method args))
    {α : Type} {f : Evaluator → Script α} {Q : α → Prop} (hf : Flow π R f Q) :
    C.Relates R.Admits Q (f ev) (f ev') := by
  induction hf with
  | pure ha => exact .pure ha
  | bind _ _ ih ihnext => exact .bind ih ihnext
  | capture _ ih => exact .capture ih
  | weaken _ hQ ih => exact ih.mono (fun _ h => h) hQ
  | signal hx => exact .signal hx
  | starve _ => exact .starve
  | view hcongr _ ih =>
    intro t t' s htasks ht hs hstore
    dsimp only
    rw [hcongr t t' (hC.alike htasks)]
    exact ih t ht t t' s htasks ht hs hstore
  | store => exact fun t t' s htasks ht hs _ => .finished (C.growth.refl s) hs ⟨hs, ht, htasks⟩
  | update hf =>
    intro t t' s htasks ht hs _
    obtain ⟨hstep, hobeys, hQ⟩ := hf s hs
    exact .finished (C.growth.same hstep.sameFiles) hobeys ⟨hQ, ht, htasks⟩
  | encode hv =>
    intro t t' s htasks ht hs _
    simp only [Builtin.encode_eq]
    split
    · exact .finished (C.growth.refl s) hs ⟨trivial, ht, htasks⟩
    · exact .finished (C.growth.refl s) hs trivial
  | @request r _ hr =>
    intro t t' s htasks ht hs _
    cases hattempt : r.attempt? s with
    | some found =>
      obtain ⟨reply, s'⟩ := found
      obtain ⟨hbrings, hs'⟩ := Request.obeys_of_attempt? hr hs hattempt
      simp only [Script.request, hattempt]
      exact .finished (C.growth.same (Request.sameFiles_of_attempt? hattempt)) hs'
        ⟨hbrings, ht, htasks⟩
    | none =>
      simp only [Script.request, hattempt]
      refine .waiting (C.growth.refl s) hs fun reply s' _ hs' hreply => ?_
      exact .finished (C.growth.refl s') hs' ⟨hreply, ht, htasks⟩
  | rounds _ _ ih =>
    dsimp only
    rw [hrounds]
    exact ih _
  | run hjob => exact h.run hjob
  | host className ref method hargs => exact hhost className ref method _ hargs
  | invoke hdecl hargs hthis => exact h.invoke hdecl hargs hthis
  | assign name home hvalue => exact hC.assignVariable home hvalue name
  | storeIn name key home hvalue => exact hC.storeInVariable home hvalue name key
  | declare name tag home hvalue => exact hC.declareVariable home hvalue name tag
  | bindCaught name home hvalue =>
    exact fun t t' s htasks ht hs _ => .finished (C.growth.refl s) hs
      ⟨trivial, Scope.Obeys.declare ht hvalue name none, hC.declare home htasks name _ none⟩
  | declareClass hstmt hdecl =>
    intro t t' s htasks ht hs _
    simp only [Evaluator.declareClass_eq]
    split
    · exact .finished (C.growth.same ⟨rfl, rfl, rfl, rfl⟩) (hs.declareClass hstmt hdecl ‹_›)
        ⟨trivial, ht, htasks⟩
    · exact .finished (C.growth.refl s) hs ⟨R.admits_failed _, ht, htasks⟩
  | load path home _ => exact h.load path home
  | start place hstarts =>
    exact fun t t' s htasks ht hs _ =>
      .finished (hC.start hstarts place s) { hs with } ⟨trivial, ht, htasks⟩

/-! ## Hosts -/

/-- What the host does for a method is a rule under a policy: it works on the store and by calls,
but has no access to the variables of the task. -/
def HostHandler.Flows (π : Policy) (host : HostHandler) : Prop :=
  ∀ R : Reach π, (∀ callee args, (Job.call callee args).Obeys π →
      ¬ (Job.call callee args).isOpen π.known → R.job (.call callee args)) →
    ∀ className ref method args, (∀ v ∈ args, v.Obeys π) →
      Flow π R (fun ev => host ev.invoke className ref method args) (Value.Obeys π)

theorem HostHandler.none_flows (π : Policy) : HostHandler.none.Flows π :=
  fun _ _ className _ _ _ _ => .fail (.missingService className)

/-- What the host does is coupled, if what it starts is. -/
theorem HostHandler.Flows.relates {π : Policy} {host : HostHandler} (hhost : host.Flows π)
    {R : Reach π} {C : Coupling π} (hC : C.Fits R)
    (hcall : ∀ callee args, (Job.call callee args).Obeys π →
      ¬ (Job.call callee args).isOpen π.known → R.job (.call callee args))
    {ev ev' : Evaluator} (h : C.Starts R ev ev') (className : String) (ref : ObjectRef)
    (method : String) (args : List Value) (hargs : ∀ v ∈ args, v.Obeys π) :
    C.Relates R.Admits (Value.Obeys π) (host ev.invoke className ref method args)
      (host ev'.invoke className ref method args) := by
  have hbare : C.Starts R ev.bare ev'.bare := ⟨h.run, h.invoke, h.load⟩
  exact (hhost R hcall className ref method args hargs).relates hC hbare rfl
    fun _ _ _ _ _ => .starve

end RouteScript
