import RouteScript.Proofs.Eval.EvaluatorRules
import RouteScript.Proofs.Eval.Frames
import RouteScript.Proofs.Eval.Variables

/-!
# Agreement of runs

Every rule leaves the frames of its task in place, and it leaves every call that it enters. Two
evaluators that agree on the jobs that rules start also agree on the rules. Both facts have one
proof, by induction on what rules are made of. The proof is for any relation between tasks that
changes of variables and calls keep.
-/

namespace RouteScript

/-! ## Runs -/

namespace Run

variable {α β : Type} {R : Store → Prop}

/-- The runs do the same as long as other tasks leave the store in `R` while they wait, and they end
with `P`. -/
inductive Agrees (R : Store → Prop) (P : Outcome α → Task → Prop) : Run α → Run α → Prop
  | finished {o : Outcome α} {t : Task} {s : Store} (hs : R s) (h : P o t) :
    Agrees R P (.finished o t s) (.finished o t s)
  | waiting {r : Request} {s : Store} {resume resume' : r.Reply → Store → Run α} (hs : R s)
    (h : ∀ reply s', R s' → Agrees R P (resume reply s') (resume' reply s')) :
    Agrees R P (.waiting r s resume) (.waiting r s resume')

/-- However the run goes on after it has waited, it ends with `P`. -/
inductive Ends (P : Outcome α → Task → Prop) : Run α → Prop
  | finished {o : Outcome α} {t : Task} {s : Store} (h : P o t) : Ends P (.finished o t s)
  | waiting {r : Request} {s : Store} {resume : r.Reply → Store → Run α}
    (h : ∀ reply s, Ends P (resume reply s)) : Ends P (.waiting r s resume)

namespace Agrees

variable {r r' : Run α}

theorem mono {P Q : Outcome α → Task → Prop} (h : r.Agrees R P r') (hPQ : ∀ o t, P o t → Q o t) :
    r.Agrees R Q r' := by
  induction h with
  | finished hs h => exact .finished hs (hPQ _ _ h)
  | waiting hs _ ih => exact .waiting hs ih

/-- Runs that agree go on to agree, if what follows does from every value they may end with. -/
theorem bind {P : Outcome α → Task → Prop} {Q : Outcome β → Task → Prop}
    {next next' : α → Task → Store → Run β} (h : r.Agrees R P r')
    (hvalue : ∀ a t s, P (.value a) t → R s → (next a t s).Agrees R Q (next' a t s))
    (hsignal : ∀ x t, P (.signal x) t → Q (.signal x) t)
    (hstarved : ∀ t, P .starved t → Q .starved t) : (r.bind next).Agrees R Q (r'.bind next') := by
  induction h with
  | @finished o t s hs h =>
    cases o with
    | value a => exact hvalue a t s h hs
    | signal x => exact .finished hs (hsignal x t h)
    | starved => exact .finished hs (hstarved t h)
  | waiting hs _ ih => exact .waiting hs ih

/-- Captured runs agree: a signal has become a value, and only the end changes. -/
theorem capture {P : Outcome α → Task → Prop} {Q : Outcome (Except Signal α) → Task → Prop}
    (h : r.Agrees R P r') (hvalue : ∀ a t, P (.value a) t → Q (.value (.ok a)) t)
    (hsignal : ∀ x t, P (.signal x) t → Q (.value (.error x)) t)
    (hstarved : ∀ t, P .starved t → Q .starved t) : r.capture.Agrees R Q r'.capture := by
  induction h with
  | @finished o t s hs h =>
    cases o with
    | value a => exact .finished hs (hvalue a t h)
    | signal x => exact .finished hs (hsignal x t h)
    | starved => exact .finished hs (hstarved t h)
  | waiting hs _ ih => exact .waiting hs ih

/-- A run that agrees with another ends as the agreement says, however others change the store. -/
theorem ends {P : Outcome α → Task → Prop} (h : r.Agrees (fun _ => True) P r') : r.Ends P := by
  induction h with
  | finished _ h => exact .finished h
  | waiting _ _ ih => exact .waiting fun reply s => ih reply s trivial

end Agrees

theorem Ends.mono {P Q : Outcome α → Task → Prop} {r : Run α} (h : r.Ends P)
    (hPQ : ∀ o t, P o t → Q o t) : r.Ends Q := by
  induction h with
  | finished h => exact .finished (hPQ _ _ h)
  | waiting _ ih => exact .waiting ih

end Run

/-! ## Scripts -/

/-- A request changes channels only. -/
theorem Request.eq_of_attempt? (r : Request) {s s' : Store} {reply : r.Reply}
    (h : r.attempt? s = some (reply, s')) : ∃ channels, s' = { s with channels } := by
  cases r with
  | offer channel value =>
    simp only [attempt?] at h
    split at h
    · contradiction
    · obtain ⟨offered, -, h⟩ := Option.map_eq_some_iff.mp h
      split at h <;> cases h <;> exact ⟨_, rfl⟩
  | settle channel ticket =>
    simp only [attempt?] at h
    split at h
    · contradiction
    · split at h <;> cases h
      exact ⟨_, rfl⟩
  | take channel =>
    simp only [attempt?] at h
    split at h
    · contradiction
    · obtain ⟨taken, -, h⟩ := Option.map_eq_some_iff.mp h
      cases h
      exact ⟨_, rfl⟩
  | await future =>
    obtain ⟨outcome, -, h⟩ := Option.map_eq_some_iff.mp h
    cases h
    exact ⟨_, rfl⟩

/-- No request changes the settings. -/
theorem Request.settings_of_attempt? (r : Request) {s s' : Store} {reply : r.Reply}
    (h : r.attempt? s = some (reply, s')) : s'.settings = s.settings := by
  obtain ⟨channels, rfl⟩ := r.eq_of_attempt? h
  rfl

/-- What the changes that scripts make to a task keep, from tasks in `I` and stores in `R`. -/
structure Upkeep (R : Store → Prop) (I : Task → Prop) (K : Task → Task → Prop) : Prop where
  refl (t : Task) : K t t
  trans {t t' t'' : Task} : K t t' → K t' t'' → K t t''
  keeps {t t' : Task} : I t → K t t' → I t'
  store {s s' : Store} : R s → s'.settings = s.settings → R s'
  directory (t : Task) (directory : Option String) : K t { t with directory }
  assign {t : Task} {s : Store} {name : String} {value : Value} : I t →
    (∀ tag, t.scope.tag? name = some tag → s.accepts tag value) →
    K t { t with scope := t.scope.set name value }
  container {t : Task} {value : Value} (name : String) (key : Option Value) : I t →
    value.kind = (((t.scope.get? name).getD .nil).prepared key).kind →
    K t { t with scope := t.scope.set name value }
  declare {t : Task} {s : Store} {name : String} {tag : Tag} {value : Value} : I t →
    s.accepts tag value → K t { t with scope := t.scope.declare name value (some tag) }
  bindCaught {t : Task} (name : String) (value : Value) : I t →
    K t { t with scope := t.scope.declare name value none }

/-- From tasks in `I` and stores in `R`, the scripts do the same and, unless they are given up, keep
`K`. -/
def Script.Keeps {α : Type} (R : Store → Prop) (I : Task → Prop) (K : Task → Task → Prop)
    (m m' : Script α) : Prop :=
  ∀ t s, I t → R s → (m t s).Agrees R (fun o t' => o ≠ .starved → K t t') (m' t s)

namespace Script.Keeps

variable {α β : Type} {R : Store → Prop} {I : Task → Prop} {K : Task → Task → Prop}

theorem modifyTask {f : Task → Task} (hf : ∀ t, I t → K t (f t)) :
    Keeps R I K (Script.modifyTask f) (Script.modifyTask f) :=
  fun t _ ht hs => .finished hs fun _ => hf t ht

theorem modifyScope {f : Scope → Scope} (hf : ∀ t, I t → K t { t with scope := f t.scope }) :
    Keeps R I K (Script.modifyScope f) (Script.modifyScope f) :=
  modifyTask hf

theorem capture {m m' : Script α} (h : Keeps R I K m m') : Keeps R I K m.capture m'.capture := by
  intro t s ht hs
  exact (h t s ht hs).capture (fun a t' h _ => h (by simp)) (fun x t' h _ => h (by simp))
    (fun t' _ h => absurd rfl h)

variable (U : Upkeep R I K)

include U

/-- A script that ends at once and only looks at its state. -/
theorem look (o : Task → Store → Outcome α) :
    Keeps R I K (fun t s => .finished (o t s) t s) fun t s => .finished (o t s) t s :=
  fun t _ _ hs => .finished hs fun _ => U.refl t

theorem pure (a : α) : Keeps R I K (Pure.pure a) (Pure.pure a) := look U fun _ _ => .value a

theorem signal (x : Signal) : Keeps R I K (Script.signal x : Script α) (Script.signal x) :=
  look U fun _ _ => .signal x

theorem starve : Keeps R I K (Script.starve : Script α) Script.starve :=
  look U fun _ _ => .starved

theorem task : Keeps R I K Script.task Script.task := look U fun t _ => .value t

theorem store : Keeps R I K Script.store Script.store := look U fun _ s => .value s

theorem ofExcept (x : Except Fault α) : Keeps R I K (Script.ofExcept x) (Script.ofExcept x) := by
  cases x with
  | ok a => exact pure U a
  | error fault => exact signal U _

theorem release (x : Except Signal α) : Keeps R I K (Script.release x) (Script.release x) := by
  cases x with
  | ok a => exact pure U a
  | error x => exact signal U x

theorem update {f : Store → α × Store} (hf : ∀ s, R s → R (f s).2) :
    Keeps R I K (Script.update f) (Script.update f) :=
  fun t s _ hs => .finished (hf s hs) fun _ => U.refl t

theorem modifyStore {f : Store → Store} (hf : ∀ s, (f s).settings = s.settings) :
    Keeps R I K (Script.modifyStore f) (Script.modifyStore f) :=
  update U (f := fun s => ((), f s)) fun s hs => U.store hs (hf s)

/-- Two scripts in a row keep what both keep, since `K` is transitive. -/
theorem bind {m m' : Script α} {next next' : α → Script β} (h : Keeps R I K m m')
    (hnext : ∀ a, Keeps R I K (next a) (next' a)) : Keeps R I K (m >>= next) (m' >>= next') := by
  intro t s ht hs
  refine (h t s ht hs).bind ?_ (fun x t' h _ => h (by simp)) (fun t' _ h => absurd rfl h)
  intro a t' s' h hs'
  have hkept : K t t' := h (by simp)
  exact (hnext a t' s' (U.keeps ht hkept) hs').mono fun o t'' h ho => U.trans hkept (h ho)

/-- A task that waits keeps its frames, whatever it waits for. -/
theorem request (r : Request) : Keeps R I K (Script.request r) (Script.request r) := by
  intro t s _ hs
  unfold Script.request
  split
  · rename_i reply s' hattempt
    exact .finished (U.store hs (r.settings_of_attempt? hattempt)) fun _ => U.refl t
  · exact .waiting hs fun reply s' hs' => .finished hs' fun _ => U.refl t

/-! ### Variables -/

/-- An assignment that passes the check of the declared type keeps `K`. -/
theorem assignVariable (name : String) (value : Value) :
    Keeps R I K (Script.assignVariable name value) (Script.assignVariable name value) := by
  intro t s ht hs
  obtain ⟨fault, hrun⟩ | ⟨haccepts, hrun⟩ := Script.assignVariable_cases name value t s
  · rw [hrun]
    exact .finished hs fun _ => U.refl t
  · rw [hrun]
    exact .finished hs fun _ => U.assign ht haccepts

theorem declareVariable (name : String) (tag : Tag) (value : Value) :
    Keeps R I K (Script.declareVariable name tag value)
      (Script.declareVariable name tag value) := by
  intro t s ht hs
  obtain ⟨fault, hrun⟩ | ⟨haccepts, hrun⟩ := Script.declareVariable_cases name tag value t s
  · rw [hrun]
    exact .finished hs fun _ => U.refl t
  · rw [hrun]
    exact .finished hs fun _ => U.declare ht haccepts

/-- Storing an element keeps the kind of the container, and with it the declared type. -/
theorem placeInVariable (name : String) (key : Option Value) (value : Value) :
    Keeps R I K (Evaluator.placeInVariable name key value)
      (Evaluator.placeInVariable name key value) := by
  intro t s ht hs
  have hprepared := U.container name key ht rfl
  obtain ⟨fault, hrun⟩ | ⟨s', hs', hrun⟩ | ⟨changed, hkind, hrun⟩ :=
    Evaluator.placeInVariable_cases name key value t s
  · rw [hrun]
    exact .finished hs fun _ => hprepared
  · rw [hrun]
    exact .finished (U.store hs hs') fun _ => hprepared
  · rw [hrun]
    have hchanged := U.container name key (U.keeps ht hprepared) hkind
    exact .finished hs fun _ => U.trans hprepared hchanged

theorem storeInVariable (name : String) (key : Option Value) (value : Value) :
    Keeps R I K (Evaluator.storeInVariable name key value)
      (Evaluator.storeInVariable name key value) := by
  have hplace := placeInVariable U name key value
  refine bind U (bind U (task U) fun _ => pure U _) fun sc => ?_
  dsimp only
  split
  · exact hplace
  · exact bind U (assignVariable U name .nil) fun _ => hplace

/-! ### Declarations -/

theorem declareClass (decl : ClassDecl) :
    Keeps R I K (Evaluator.declareClass decl) (Evaluator.declareClass decl) :=
  bind U (store U) fun _ => bind U (ofExcept U _) fun _ => modifyStore U fun _ => rfl

/-- A script that is loaded runs in the frames of the task that loads it. -/
theorem load {ev ev' : Evaluator} (hrun : ∀ job, Keeps R I K (ev.run job) (ev'.run job))
    (path : String) : Keeps R I K (ev.load path) (ev'.load path) := by
  refine bind U (store U) fun s => bind U (task U) fun t => ?_
  have hdirectory (directory : Option String) := modifyTask (R := R) (I := I)
    (f := fun t => { t with directory }) fun t _ => U.directory t directory
  split
  · exact signal U _
  · rename_i place _
    split
    · exact pure U ()
    · refine bind U (modifyStore U fun _ => rfl) fun _ => bind U (ofExcept U _) fun body => ?_
      refine bind U (hdirectory _) fun _ => bind U (capture (hrun (.load place body))) fun outcome => ?_
      exact bind U (hdirectory _) fun _ => bind U (release U outcome) fun _ => pure U ()

end Script.Keeps

/-! ## Calls -/

/-- Whether an outcome is one of a call: a value, a thrown value or a fault. -/
def Outcome.endsCall {α : Type} : Outcome α → Bool
  | .value _ | .signal (.thrown _) | .signal (.failed _) => true
  | .signal (.returned _) | .signal .broken | .signal .continued | .starved => false

namespace Evaluator

/-- A call of a function with a body, as a run. -/
theorem invokeFunction_apply (ev : Evaluator) {decl : FunctionDecl} {body : Block}
    (hbody : decl.body = some body) (args : List Value) (this : Option Value) (t : Task)
    (s : Store) :
    ev.invokeFunction decl args this t s =
      if s.settings.callLimit ≤ t.calls then
        .finished (.signal (.failed (.callDepth s.settings.callLimit))) t s
      else
        ((bindParameters decl.params args >>= fun _ => ev.block body) (t.enter this) s).capture.bind
          fun outcome t s => callResult outcome t.leave s := by
  simp only [invokeFunction, hbody]
  change (if s.settings.callLimit ≤ t.calls then Script.fail _ else _ : Script Value) t s = _
  by_cases h : s.settings.callLimit ≤ t.calls
  · rw [if_pos h, if_pos h]
    rfl
  · rw [if_neg h, if_neg h]
    rfl

/-- Making an object of a class that is there, as a run. -/
theorem newObject_apply (ev : Evaluator) {className : String} (t : Task) {s : Store}
    (hcontains : s.classes.contains className) :
    ev.newObject className t s =
      (ev.fillProperties (s.newObject className []).1
        ((s.classes.chain className).reverse.flatMap (·.decl.properties)) t
        (s.newObject className []).2).bind
          fun _ => .finished (.value (s.newObject className []).1) := by
  change (if s.classes.contains className then _ else _ : Script ObjectRef) t s = _
  rw [if_pos hcontains]
  rfl

/-- Giving a property its default before the properties that follow, as a run. -/
theorem fillProperties_apply (ev : Evaluator) (ref : ObjectRef) {property : PropertyDecl}
    {e : Expr} (hinitial : property.initial = some e) (rest : List PropertyDecl) (t : Task)
    (s : Store) :
    ev.fillProperties ref (property :: rest) t s = (ev.expr e t s).bind fun v t s =>
      ev.fillProperties ref rest t (s.setField ref property.name v) := by
  rw [fillProperties, initialValue, hinitial]
  rfl

/-- A call turns what its body ends with into one of its own outcomes. -/
theorem callResult_agrees {R : Store → Prop} (outcome : Except Signal Value) {t : Task} {s : Store}
    (hs : R s) {P : Task → Prop} (ht : P t) :
    (callResult outcome t s).Agrees R (fun o t' => P t' ∧ o.endsCall) (callResult outcome t s) := by
  match outcome with
  | .ok _ | .error (.returned _) | .error .broken | .error .continued | .error (.thrown _)
  | .error (.failed _) => exact .finished hs ⟨ht, rfl⟩

end Evaluator

/-- What rules keep of a task, calls included: however the parameters of a call are bound, what its
body keeps from there on is kept by the call. -/
structure Discipline (R : Store → Prop) (I : Task → Prop) (K : Task → Task → Prop) : Prop
    extends Upkeep R I K where
  framed {t t' : Task} : K t t' → t.Framed t'
  call {t : Task} {s : Store} (params : List Parameter) (args : List Value) (this : Option Value) :
    I t → R s → t.calls < s.settings.callLimit →
    (Evaluator.bindParameters params args (t.enter this) s).Agrees R
      (fun o t₁ => o ≠ .starved →
        (t.enter this).Framed t₁ ∧ I t₁ ∧ ∀ t₂, K t₁ t₂ → K t t₂.leave)
      (Evaluator.bindParameters params args (t.enter this) s)

section Keeps

variable {R : Store → Prop} {I : Task → Prop} {K : Task → Task → Prop} (D : Discipline R I K)

include D

/-- A call keeps `K` for its caller and leaves the frames of the caller alone. -/
theorem Evaluator.invokeFunction_keeps {ev ev' : Evaluator}
    (hrun : ∀ job, Script.Keeps R I K (ev.run job) (ev'.run job)) (decl : FunctionDecl)
    (args : List Value) (this : Option Value) {t : Task} {s : Store} (ht : I t) (hs : R s) :
    (ev.invokeFunction decl args this t s).Agrees R
      (fun o t' => o ≠ .starved → K t t' ∧ t.Isolated t' ∧ o.endsCall)
      (ev'.invokeFunction decl args this t s) := by
  cases hbody : decl.body with
  | none =>
    simp only [invokeFunction, hbody]
    exact .finished hs fun _ => ⟨D.refl t, .refl t, rfl⟩
  | some body =>
    rw [ev.invokeFunction_apply hbody, ev'.invokeFunction_apply hbody]
    split
    · exact .finished hs fun _ => ⟨D.refl t, .refl t, rfl⟩
    · rename_i hlimit
      have hbind := D.call decl.params args this ht hs (Nat.lt_of_not_le hlimit)
      have hscript :
          ((bindParameters decl.params args >>= fun _ => ev.block body) (t.enter this) s).Agrees R
            (fun o t₂ => o ≠ .starved → K t t₂.leave ∧ t.Isolated t₂.leave)
            ((bindParameters decl.params args >>= fun _ => ev'.block body) (t.enter this) s) := by
        refine hbind.bind ?_ ?_ fun _ _ h => absurd rfl h
        · intro _ t₁ s₁ h hs₁
          obtain ⟨hframed, hstart, hleave⟩ := h (by simp)
          refine (hrun (.block body) t₁ s₁ hstart hs₁).mono fun o t₂ h ho => ?_
          exact ⟨hleave t₂ (h ho), (hframed.trans (D.framed (h ho))).isolated_leave⟩
        · intro x t₁ h _
          obtain ⟨hframed, -, hleave⟩ := h (by simp)
          exact ⟨hleave t₁ (D.refl t₁), hframed.isolated_leave⟩
      -- the body may end with any signal, but not so once it is captured
      have hcaptured := hscript.capture
        (Q := fun o t₂ => (∀ x, o ≠ .signal x) ∧
          (o ≠ .starved → K t t₂.leave ∧ t.Isolated t₂.leave))
        (fun a t₂ h => ⟨by simp, fun _ => h (by simp)⟩)
        (fun x t₂ h => ⟨by simp, fun _ => h (by simp)⟩)
        (fun t₂ _ => ⟨by simp, fun h => absurd rfl h⟩)
      refine hcaptured.bind ?_ (fun x _ h => absurd rfl (h.1 x)) (fun _ _ h => absurd rfl h)
      intro outcome t₂ s₂ h hs₂
      exact (callResult_agrees (P := fun t' => K t t' ∧ t.Isolated t') outcome hs₂
        (h.2 (by simp))).mono fun _ _ h _ => ⟨h.1.1, h.1.2, h.2⟩

/-! ## Rules -/

/-- Rules keep what the jobs inside them keep, if a direct write to a global does. -/
theorem Rule.keeps {direct : Prop} {α : Type} {S : Store → Store → Prop} {f : Evaluator → Script α}
    (h : Rule direct S f)
    (hdirect : direct → ∀ name value t, I t →
      K t { t with scope := t.scope.setGlobal name value })
    (hS : ∀ s s', S s s' → R s → R s') (ev ev' : Evaluator)
    (hrun : ∀ job, Script.Keeps R I K (ev.run job) (ev'.run job)) (hrounds : ev.rounds = ev'.rounds)
    (hhost : ∀ className ref method args,
      Script.Keeps R I K (ev.host ev.invoke className ref method args)
        (ev'.host ev'.invoke className ref method args)) :
    Script.Keeps R I K (f ev) (f ev') := by
  have U := D.toUpkeep
  induction h with
  | pure a => exact .pure U a
  | bind _ _ ih ihnext => exact .bind U ih ihnext
  | capture _ ih => exact .capture ih
  | signal x => exact .signal U x
  | starve => exact .starve U
  | task => exact .task U
  | store => exact .store U
  | update hf => exact .update U fun s => hS _ _ (hf s)
  | request r => exact .request U r
  | rounds _ ih =>
    dsimp only
    rw [hrounds]
    exact ih _
  | run job => exact hrun job
  | host className ref method args => exact hhost className ref method args
  | invoke decl args this =>
    intro t s ht hs
    exact (Evaluator.invokeFunction_keeps D hrun decl args this ht hs).mono
      fun _ _ h ho => (h ho).1
  | assign name value => exact .assignVariable U name value
  | storeIn name key value => exact .storeInVariable U name key value
  | declare name tag value => exact .declareVariable U name tag value
  | bindCaught name value => exact .modifyScope fun _ ht => U.bindCaught name value ht
  | setGlobal name value h => exact .modifyScope (hdirect h name value)
  | declareClass decl => exact .declareClass U decl
  | load path => exact .load U hrun path
  | start place => exact .modifyStore U fun _ => rfl

end Keeps

/-- What the host does for a method keeps `K`, if the jobs inside it do. -/
def HostHandler.Keeps (R : Store → Prop) (I : Task → Prop) (K : Task → Task → Prop)
    (host : HostHandler) : Prop :=
  ∀ ev ev' : Evaluator, (∀ job, Script.Keeps R I K (ev.run job) (ev'.run job)) →
    ∀ className ref method args, Script.Keeps R I K (host ev.invoke className ref method args)
      (host ev'.invoke className ref method args)

/-- What the host does for a method depends on the jobs inside it only. -/
def Evaluator.bare (ev : Evaluator) : Evaluator := ⟨ev.run, 0, fun _ _ _ _ _ => Script.starve⟩

/-! ## Frames -/

structure Guard (R : Store → Prop) (I : Task → Prop) : Prop where
  store {s s' : Store} : R s → s'.settings = s.settings → R s'
  framed {t t' : Task} : I t → t.Framed t' → I t'
  enter {t : Task} {s : Store} (this : Option Value) :
    I t → R s → t.calls < s.settings.callLimit → I (t.enter this)

/-- From tasks in `I` and stores in `R`, the scripts do the same and, unless they are given up, come
back to the frames that they started in. -/
abbrev Script.Agrees {α : Type} (R : Store → Prop) (I : Task → Prop) (m m' : Script α) : Prop :=
  Script.Keeps R I Task.Framed m m'

section Framed

variable {R : Store → Prop} {I : Task → Prop} (G : Guard R I)

theorem Task.framed_declare (name : String) (value : Value) (tag : Option Tag) (t : Task) :
    t.Framed { t with scope := t.scope.declare name value tag } :=
  ⟨rfl, Scope.framed_declare name value tag t.scope⟩

include G

theorem Guard.upkeep : Upkeep R I Task.Framed where
  refl := .refl
  trans := .trans
  keeps := G.framed
  store := G.store
  directory _ _ := ⟨rfl, .refl _⟩
  assign _ _ := ⟨rfl, Scope.framed_set _ _ _⟩
  container _ _ _ _ := ⟨rfl, Scope.framed_set _ _ _⟩
  declare _ _ := Task.framed_declare ..
  bindCaught _ _ _ := Task.framed_declare ..

theorem Script.Agrees.bindParameters (params : List Parameter) (args : List Value) :
    Script.Agrees R I (Evaluator.bindParameters params args)
      (Evaluator.bindParameters params args) := by
  have U := G.upkeep
  induction params generalizing args with
  | nil => exact .pure U ()
  | cons param params ih =>
    refine .bind U ?_ fun _ => ih args.tail
    intro t s _ hs
    obtain ⟨fault, hrun⟩ | ⟨-, hrun⟩ := Evaluator.bindParameter_cases param args.head? t s
    · rw [hrun]
      exact .finished hs fun _ => .refl t
    · rw [hrun]
      exact .finished hs fun _ => t.framed_declare ..

/-- Keeping the frames in place is a discipline of its own, under any guard. -/
theorem Guard.discipline : Discipline R I Task.Framed where
  toUpkeep := G.upkeep
  framed h := h
  call params args this ht hs hlimit := by
    have henter := G.enter this ht hs hlimit
    refine (Script.Agrees.bindParameters G params args _ _ henter hs).mono fun o t₁ h ho => ?_
    exact ⟨h ho, G.framed henter (h ho), fun t₂ h₂ => ((h ho).trans h₂).isolated_leave.framed⟩

/-- Calls leave the caller's frames alone, whatever the jobs inside them do. -/
theorem Evaluator.invokeFunction_agrees {ev ev' : Evaluator}
    (hrun : ∀ job, Script.Agrees R I (ev.run job) (ev'.run job)) (decl : FunctionDecl)
    (args : List Value) (this : Option Value) {t : Task} {s : Store} (ht : I t) (hs : R s) :
    (ev.invokeFunction decl args this t s).Agrees R
      (fun o t' => o ≠ .starved → t.Isolated t' ∧ o.endsCall)
      (ev'.invokeFunction decl args this t s) :=
  (invokeFunction_keeps G.discipline hrun decl args this ht hs).mono fun _ _ h ho => (h ho).2

end Framed

def Store.KeepsSettings (s s' : Store) : Prop := s'.settings = s.settings

/-- What the host does for a method is a rule: it works on the store within `S`, on the variables in
sight and by calls, but has no other access to the frames of the task. -/
def HostHandler.Follows (S : Store → Store → Prop) (host : HostHandler) : Prop :=
  ∀ className ref method args, Rule True S fun ev => host ev.invoke className ref method args

theorem HostHandler.Follows.keeps {R : Store → Prop} {I : Task → Prop} {host : HostHandler}
    (hhost : host.Follows Store.KeepsSettings) (G : Guard R I) : host.Keeps R I Task.Framed := by
  intro ev ev' hrun className ref method args
  have hdirect (name : String) (value : Value) (t : Task) (_ : I t) :
      t.Framed { t with scope := t.scope.setGlobal name value } :=
    ⟨rfl, Scope.framed_setGlobal name value t.scope⟩
  exact (hhost className ref method args).keeps G.discipline (fun _ => hdirect)
    (fun _ _ h hs => G.store hs h) ev.bare ev'.bare hrun rfl fun _ _ _ _ => .starve G.upkeep

end RouteScript
