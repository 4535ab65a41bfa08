import RouteScript.Proofs.Eval.Coupling

/-!
# Making objects

Defaults are evaluated in the frame of the code that makes an object. So they may read its variables
and return from its call. Defaults that name no variable and do not jump are closed: an object with
such defaults is made in the same way whatever the variables of the frame are, and they stay as they
are. Calls need no such condition, because they have frames of their own.
-/

namespace RouteScript

open Relation (ReflTransGen TransGen)

/-! ## Tasks that differ in their frames -/

def Task.withCalls (calls : List Frame) (t : Task) : Task :=
  { t with scope := { t.scope with calls } }

def Growth.any : Growth where
  rel _ _ := True
  trans _ _ := trivial
  same _ := trivial

/-- Tasks that differ at most in the frames of their calls, which are `on` each other. -/
def framesCoupling (π : Policy) (on : List Frame → List Frame → Prop) : Coupling π where
  growth := .any
  store _ := True
  tasks t t' := ∃ calls, on t.scope.calls calls ∧ t' = t.withCalls calls
  keeps _ _ := trivial

def OnTop (rest rest' calls calls' : List Frame) : Prop :=
  ∃ frame, calls = frame :: rest ∧ calls' = frame :: rest'

section OnTop

variable {π : Policy} {rest rest' : List Frame} {t t' : Task}

theorem OnTop.modifyInnermost (h : (framesCoupling π (OnTop rest rest')).tasks t t')
    (f : Frame → Frame) :
    (framesCoupling π (OnTop rest rest')).tasks { t with scope := t.scope.modifyInnermost f }
      { t' with scope := t'.scope.modifyInnermost f } := by
  obtain ⟨_, ⟨frame, ht, rfl⟩, rfl⟩ := h
  refine ⟨f frame :: rest', ⟨f frame, ?_, rfl⟩, ?_⟩
  · simp [Scope.modifyInnermost, ht]
  · simp [Scope.modifyInnermost, Task.withCalls, ht]

/-- Tasks with the same innermost frame have the same variables in sight. -/
theorem OnTop.alike (h : (framesCoupling π (OnTop rest rest')).tasks t t') (inner : Prop) :
    t.Alike inner t' := by
  obtain ⟨_, ⟨frame, ht, rfl⟩, rfl⟩ := h
  exact ⟨rfl, by simp [Scope.this, Scope.innermost, Task.withCalls, ht], rfl,
    fun _ => by simp [Scope.innermost, Task.withCalls, ht]⟩

theorem OnTop.declare (h : (framesCoupling π (OnTop rest rest')).tasks t t') (name : String)
    (v : Value) (tag : Option Tag) :
    (framesCoupling π (OnTop rest rest')).tasks (t.declare name v tag) (t'.declare name v tag) :=
  OnTop.modifyInnermost h _

theorem OnTop.set (h : (framesCoupling π (OnTop rest rest')).tasks t t') (name : String)
    (v : Value) : (framesCoupling π (OnTop rest rest')).tasks (t.set name v) (t'.set name v) := by
  have halike := OnTop.alike h True
  have hinner : t'.scope.isInner name = t.scope.isInner name := by
    simp only [Scope.isInner, halike.innermost trivial, halike.globals]
  simp only [Task.set, Scope.set, Scope.modifyOwner, hinner]
  split
  · exact OnTop.modifyInnermost h _
  · obtain ⟨calls, hon, rfl⟩ := h
    exact ⟨calls, hon, rfl⟩

/-- Nothing that a rule does to its variables reaches below the innermost frame. -/
theorem OnTop.fits (R : Reach π) : (framesCoupling π (OnTop rest rest')).Fits R where
  alike h := OnTop.alike h _
  set _ := OnTop.set
  declare _ := OnTop.declare
  start _ _ _ := trivial

end OnTop

/-! ## Calls -/

namespace Evaluator

variable {π : Policy} {R : Reach π} {on : List Frame → List Frame → Prop} {ev : Evaluator}

def ForgetsBelow (π : Policy) (ev : Evaluator) : Prop :=
  ∀ (rest rest' : List Frame) (job : Job), job.Obeys π →
    (framesCoupling π (OnTop rest rest')).Relates (Reach.full π).Admits (Value.Obeys π)
      (ev.run job) (ev.run job)

/-- A call has a frame of its own on top of all others. -/
theorem ForgetsBelow.invoke (h : ForgetsBelow π ev) {decl : FunctionDecl} {args : List Value}
    {this : Option Value} (hdecl : decl.passes π.code) (hargs : ∀ v ∈ args, v.Obeys π)
    (hthis : ∀ v ∈ this, v.Obeys π) :
    (framesCoupling π on).Relates R.Admits (Value.Obeys π) (ev.invokeFunction decl args this)
      (ev.invokeFunction decl args this) := by
  refine .invokeFunction hargs hthis (by rintro t _ ⟨calls, -, rfl⟩; rfl) ?_
  rintro t _ ⟨calls, hon, rfl⟩
  refine ⟨(framesCoupling π (OnTop t.scope.calls calls)).tasks, ?_, ?_, ?_, ?_⟩
  · exact ⟨_, ⟨_, rfl, rfl⟩, rfl⟩
  · exact fun u u' h => OnTop.declare h
  · rintro u _ ⟨_, ⟨frame, hu, rfl⟩, rfl⟩
    exact ⟨calls, by simpa [Task.leave, Scope.pop, hu] using hon, rfl⟩
  · intro body hbody
    have hobeys : (Job.block body).Obeys π := FunctionDecl.passes_iff.mp hdecl body hbody
    exact (h t.scope.calls calls (.block body) hobeys).mono (fun _ h => h.1) fun _ h => h

/-- A loaded script sees the innermost frame only, as the code does that loads it. -/
theorem ForgetsBelow.load (h : ForgetsBelow π ev) (hunbounded : π.unbounded)
    (rest rest' : List Frame) (path : String) :
    (framesCoupling π (OnTop rest rest')).Relates (Reach.full π).Admits (fun _ => True)
      (ev.load path) (ev.load path) := by
  refine .load path (by rintro t _ ⟨calls, -, rfl⟩; rfl) (fun _ _ _ _ _ => trivial) ?_
  rintro t _ s place body ⟨calls, hon, rfl⟩ ht hs - - - hbody
  obtain ⟨source, program, htext, hprogram, rfl⟩ := readScript_eq_ok_iff.mp hbody
  have hobeys : (Job.load place program.statements).Obeys π :=
    hs.files hunbounded place source program htext hprogram
  have hrun := h rest rest' _ hobeys { t with directory := some (Path.ofNames place.dropLast) } _
    { s with loaded := place :: s.loaded } ⟨calls, hon, rfl⟩ ht { hs with } trivial
  refine Run.Coupled.since (G := .any) trivial (hrun.mono fun o u u' hends => hends.imp ?_)
  rintro ⟨calls', hon', rfl⟩
  exact ⟨calls', hon', rfl⟩

/-- All that a rule starts ignores the frames below the innermost one. -/
theorem ForgetsBelow.starts (h : ForgetsBelow π ev) (hunbounded : π.unbounded)
    (rest rest' : List Frame) :
    (framesCoupling π (OnTop rest rest')).Starts (Reach.full π) ev ev where
  run := h rest rest' _
  invoke := h.invoke
  load path _ := h.load hunbounded rest rest' path

variable {host : HostHandler} (hhost : host.Flows π) (hunbounded : π.unbounded)

include hhost hunbounded

/-- The induction is on the levels, for all frames at once: a call puts another frame on top. -/
theorem forgetsBelow (levels : Nat) : ForgetsBelow π (withLevels host levels) := by
  induction levels with
  | zero => exact fun _ _ _ _ => .starve
  | succ levels ih =>
    intro rest rest' job hjob
    have hfits : (framesCoupling π (OnTop rest rest')).Fits (Reach.full π) := OnTop.fits _
    have hstarts := ih.starts hunbounded rest rest'
    exact (flow_step (Reach.full_covers hjob)).relates hfits hstarts rfl
      (hhost.relates hfits (fun _ _ h _ => h) hstarts)

end Evaluator

/-! ## Closed defaults -/

/-- Classes whose defaults have to be closed. -/
structure Sealing where
  classes : String → Bool
  /-- Functions that are declared from the start. Their names stand for them in every frame. -/
  known : String → Bool
  /-- Whether defaults may read members. A member of a class is one of a new object. -/
  members : Bool
  all_of_members : members → ∀ className, classes className

namespace Sealing

variable (σ : Sealing)

/-- Whether a job by itself neither uses the variables in sight nor jumps, and makes objects of
these classes only. -/
def closes (job : Job) : Bool :=
  !job.isOpen σ.known && (σ.members || job.buildsOnly σ.classes)

/-- Whether a class, if it is one of these, has a parent among them and closed defaults. -/
def admits (decl : ClassDecl) : Bool :=
  !σ.classes decl.name || decl.parent.all σ.classes &&
    decl.properties.all fun property => property.initial.all fun e => (Job.expr e).all σ.closes

/-- Whether a statement by itself declares an admitted class, if any. -/
def admitsStmt : Stmt → Bool
  | .classDef decl => σ.admits decl
  | _ => true

/-- No other classes are declared than admitted ones. -/
def policy : Policy where
  code := ⟨fun _ => true, σ.admitsStmt⟩
  builtin _ := True
  known := σ.known
  table := ClassTable.Checked σ.admits
  unbounded := True
  builtin_of_name _ _ := trivial
  unbounded_of_builtin _ _ := trivial
  unbounded_of_stmt _ _ := trivial
  register hcheck ht hok := ht.register hcheck hok

variable {σ}

/-- What admitting a class of the sealing asks for. -/
theorem admits_iff {decl : ClassDecl} (hclass : σ.classes decl.name) : σ.admits decl ↔
    (∀ parent ∈ decl.parent, σ.classes parent) ∧ ∀ property ∈ decl.properties,
      ∀ e, property.initial = some e → (Job.expr e).all σ.closes := by
  simp [admits, hclass, Option.all_eq_true]

/-- A closed job makes objects of sealed classes only. -/
theorem classes_of_closes {job : Job} (h : σ.closes job) {className : String}
    (hbuild : job.MayBuild className) : σ.classes className := by
  simp only [closes, Bool.and_eq_true, Bool.or_eq_true] at h
  obtain hmembers | hbuilds := h.2
  · exact σ.all_of_members hmembers className
  · exact Job.allows_of_buildsOnly hbuilds hbuild

theorem not_isOpen_of_closes {job : Job} (h : σ.closes job) : ¬ job.isOpen σ.known := by
  simp only [closes, Bool.and_eq_true] at h
  simpa using h.1

theorem closes_call {callee : Value} {args : List Value}
    (h : ¬ (Job.call callee args).isOpen σ.known) : σ.closes (.call callee args) := by
  simp [closes, h, Job.buildsOnly]

variable (σ)

def reach : Reach σ.policy where
  job job := job.Obeys σ.policy ∧ ∀ part, ReflTransGen Job.HasPart job part → σ.closes part
  builds className := σ.classes className
  atHome := False
  starts := True
  initial := by
    intro table className entry property e htable hcode hclass hentry hproperty he
    have hentry' : σ.classes entry.decl.name :=
      htable.of_mem_chain (P := (σ.classes ·))
        (fun decl hdecl hname => ((admits_iff hname).mp hdecl).1) hclass hentry
    have hadmits := htable.decl entry (ClassTable.mem_of_mem_chain hentry)
    exact ⟨ClassTable.passes_of_initial hcode hentry hproperty he,
      Job.all_iff.mp (((admits_iff hentry').mp hadmits).2 property hproperty e he)⟩

variable {σ}

theorem reach_call {callee : Value} {args : List Value}
    (hobeys : (Job.call callee args).Obeys σ.policy)
    (hopen : ¬ (Job.call callee args).isOpen σ.known) : σ.reach.job (.call callee args) := by
  refine ⟨hobeys, fun _ hpart => ?_⟩
  obtain rfl | ⟨first, hfirst, -⟩ := ReflTransGen.cases_head hpart
  · exact closes_call hopen
  · simp [Job.HasPart, Job.parts] at hfirst

/-- A value that is called without arguments hands nothing over to a new task. -/
theorem reach_callBack {v : Value} (hv : v.Obeys σ.policy) : σ.reach.job (.call v []) :=
  reach_call ⟨hv, by simp⟩ (by simp [Job.isOpen])

/-- A job within reach covers its parts. -/
theorem reach_covers {job : Job} (h : σ.reach.job job) : σ.reach.Covers job where
  obeys := h.1
  home hopen := not_isOpen_of_closes (h.2 job .refl) hopen
  starts _ := trivial
  parts _ hpart := ⟨h.1.of_transGen hpart,
    fun inner hinner => h.2 inner (hpart.to_reflTransGen.trans hinner)⟩
  builds _ hbuild := classes_of_closes (h.2 job .refl) hbuild
  back _ hv _ := reach_callBack hv

end Sealing

/-! ## Objects -/

/-- The innermost frames are given ones, with the same frames below. -/
def Swapped (frame frame' : Frame) (rest calls calls' : List Frame) : Prop :=
  calls = frame :: rest ∧ calls' = frame' :: rest

/-- The receiver is all that closed defaults see of the innermost frame. -/
theorem Swapped.fits {σ : Sealing} {frame frame' : Frame} (hthis : frame'.this = frame.this)
    (rest : List Frame) : (framesCoupling σ.policy (Swapped frame frame' rest)).Fits σ.reach where
  alike := by
    rintro t _ ⟨_, ⟨ht, rfl⟩, rfl⟩
    exact ⟨rfl, by simp [Scope.this, Scope.innermost, Task.withCalls, ht, hthis], rfl, False.elim⟩
  set home := home.elim
  declare home := home.elim
  start _ _ _ := trivial

namespace Evaluator

section Swapped

variable {σ : Sealing} {frame frame' : Frame} (hthis : frame'.this = frame.this)
  (rest : List Frame) {host : HostHandler} (hhost : host.Flows σ.policy)

include hthis hhost

/-- Rules within the reach of closed defaults do the same in both frames if jobs do. -/
theorem relates_of_run {levels : Nat} (hrun : ∀ job, σ.reach.job job →
      (framesCoupling σ.policy (Swapped frame frame' rest)).Relates σ.reach.Admits
        (Value.Obeys σ.policy) (perform host levels job) (perform host levels job))
    {α : Type} {f : Evaluator → Script α} {Q : α → Prop} (hf : Flow σ.policy σ.reach f Q) :
    (framesCoupling σ.policy (Swapped frame frame' rest)).Relates σ.reach.Admits Q
      (f (withLevels host levels)) (f (withLevels host levels)) := by
  have hfits : (framesCoupling σ.policy (Swapped frame frame' rest)).Fits σ.reach :=
    Swapped.fits hthis rest
  have hstarts : (framesCoupling σ.policy (Swapped frame frame' rest)).Starts σ.reach
      (withLevels host levels) (withLevels host levels) := {
    run := hrun _
    invoke := (forgetsBelow hhost trivial levels).invoke
    load := fun _ home => home.elim }
  exact hf.relates hfits hstarts rfl
    (hhost.relates hfits (fun _ _ => Sealing.reach_call) hstarts)

/-- Closed jobs do the same in both frames. The induction is on the levels. -/
theorem perform_relates (levels : Nat) (job : Job) (hjob : σ.reach.job job) :
    (framesCoupling σ.policy (Swapped frame frame' rest)).Relates σ.reach.Admits
      (Value.Obeys σ.policy) (perform host levels job) (perform host levels job) := by
  induction levels generalizing job with
  | zero => exact .starve
  | succ levels ih =>
    exact relates_of_run hthis rest hhost ih (flow_step (Sealing.reach_covers hjob))

end Swapped

end Evaluator

/-- The script does the same in all innermost frames with the same receiver, leaves the frame alone
and does not jump out of it. -/
def Script.IgnoresFrame {α : Type} (π : Policy) (m : Script α) (t : Task) (s : Store) : Prop :=
  ∀ frame rest, t.scope.calls = frame :: rest → ∀ frame' : Frame, frame'.this = frame.this →
    (m t s).Coupled π .any
      (fun o u u' => (∀ x, o = .signal x → ¬ x.isJump) ∧
        (o ≠ .starved → u.scope.calls = frame :: rest ∧ u' = u.withCalls (frame' :: rest)))
      s (m (t.withCalls (frame' :: rest)) s)

namespace Evaluator

/-- Rules within the reach of closed defaults ignore the frame. -/
theorem ignoresFrame_of_flow {σ : Sealing} {host : HostHandler} (hhost : host.Flows σ.policy)
    (levels : Nat) {α : Type} {f : Evaluator → Script α} {Q : α → Prop}
    (hf : Flow σ.policy σ.reach f Q) {t : Task} (ht : t.Obeys σ.policy) {s : Store}
    (hs : s.Obeys σ.policy) : (f (withLevels host levels)).IgnoresFrame σ.policy t s := by
  intro frame rest hcalls frame' hthis
  have hrelates := relates_of_run hthis rest hhost (perform_relates hthis rest hhost levels) hf
  refine (hrelates t _ s ⟨_, ⟨hcalls, rfl⟩, rfl⟩ ht hs trivial).mono fun o u u' hends => ?_
  cases o with
  | value a =>
    obtain ⟨_, ⟨hu, rfl⟩, rfl⟩ := hends.2.2
    exact ⟨by simp, fun _ => ⟨hu, rfl⟩⟩
  | signal x =>
    obtain ⟨_, ⟨hu, rfl⟩, rfl⟩ := hends.2.2
    refine ⟨?_, fun _ => ⟨hu, rfl⟩⟩
    rintro _ ⟨⟩
    exact hends.1.2
  | starved => exact ⟨by simp, fun h => absurd rfl h⟩

def storeWithDefault (className property : String) (initial : Expr) : Store :=
  { classes := .push { decl := ⟨className, none, [⟨property, none, some initial⟩], []⟩ } {} rfl }

section Default

variable {className property : String} {initial : Expr}

theorem chain_storeWithDefault :
    (storeWithDefault className property initial).classes.chain className =
      [{ decl := ⟨className, none, [⟨property, none, some initial⟩], []⟩ }] := by
  simp [storeWithDefault, ClassTable.chain, ClassTable.chainFrom, ClassTable.indexOf?,
    ClassTable.push, ClassTable.size]

/-- The default is evaluated by the task that makes the object. -/
theorem create_storeWithDefault {ev : Evaluator} {t : Task} {o : Outcome Value}
    (h : ∀ s, ev.expr initial t s = .finished o t s) :
    ev.create className [] t (storeWithDefault className property initial) =
      (Run.finished o t { storeWithDefault className property initial with objects := #[[]] }).bind
        fun v t s => .finished (.value ⟨0, className⟩) t
          { s with objects := #[[(property, v)]] } := by
  have hcontains : (storeWithDefault className property initial).classes.contains className := by
    simp [storeWithDefault, ClassTable.contains, ClassTable.indexOf?, ClassTable.push]
  have hnew : ev.newObject className t (storeWithDefault className property initial) =
      (Run.finished o t { storeWithDefault className property initial with objects := #[[]] }).bind
        fun v t s => .finished (.value ⟨0, className⟩) t
          { s with objects := #[[(property, v)]] } := by
    rw [ev.newObject_apply t hcontains, chain_storeWithDefault, List.reverse_singleton,
      List.flatMap_singleton, ev.fillProperties_apply _ rfl, h]
    cases o <;> rfl
  rw [create, Script.bind_apply, hnew]
  cases o with
  | value v =>
    have hconstructor : (storeWithDefault className property initial).classes.findMethod? className
        "constructor" = none := by
      simp [ClassTable.findMethod?, chain_storeWithDefault, ClassDecl.method?]
    have hhosted : (storeWithDefault className property initial).classes.hostedAncestor? className =
        none := by
      simp [ClassTable.hostedAncestor?, chain_storeWithDefault]
    simp only [Run.bind, Script.bind_apply, Script.store, hconstructor, hhosted]
    rfl
  | signal x => rfl
  | starved => rfl

end Default

/-- A default that names a variable reads it in the frame of the code that makes the object. -/
theorem create_reads_frame (host : HostHandler) (levels : Nat) (className property name : String)
    {frame : Frame} {v : Value} (hv : Dict.get? name frame.vars = some v) :
    (withLevels host (levels + 1)).create className []
      { scope := { calls := [frame] } } (storeWithDefault className property (.name name)) =
    .finished (.value ⟨0, className⟩) { scope := { calls := [frame] } }
      { storeWithDefault className property (.name name) with objects := #[[(property, v)]] } := by
  have hlookup (s : Store) : lookup name { scope := { calls := [frame] } } s = v := by
    simp [lookup, Scope.get?, Scope.owner, Scope.isInner, Scope.innermost, Dict.contains, hv]
  refine create_storeWithDefault (o := .value v) fun s => ?_
  exact congrArg (fun v => Run.finished (Outcome.value v) _ s) (hlookup s)

/-- A default that returns does so from the call that makes the object. -/
theorem create_returns (host : HostHandler) (levels : Nat) (className property : String)
    (t : Task) :
    (withLevels host (levels + 2)).create className [] t
      (storeWithDefault className property (.block [.returns none])) =
    .finished (.signal (.returned .nil)) t
      { storeWithDefault className property (.block [.returns none]) with objects := #[[]] } :=
  create_storeWithDefault (o := .signal (.returned .nil)) fun _ => rfl

/-- Where the defaults of all classes of a kind are closed, an object of such a class is made in the
same way in all frames. Otherwise the frame may decide on the object, and may be left. -/
theorem objects_ignore_frames (host : HostHandler) (levels : Nat) (className : String) :
    (∀ (σ : Sealing) (args : List Value) (t : Task) (s : Store), host.Flows σ.policy →
      σ.classes className → (∀ v ∈ args, v.Obeys σ.policy) → t.Obeys σ.policy → s.Obeys σ.policy →
      ((withLevels host levels).create className args).IgnoresFrame σ.policy t s ∧
        ((withLevels host levels).newObject className).IgnoresFrame σ.policy t s) ∧
    (∀ (property name : String) (frame : Frame) (v : Value), Dict.get? name frame.vars = some v →
      (withLevels host (levels + 1)).create className []
        { scope := { calls := [frame] } } (storeWithDefault className property (.name name)) =
      .finished (.value ⟨0, className⟩) { scope := { calls := [frame] } }
        { storeWithDefault className property (.name name) with objects := #[[(property, v)]] }) ∧
    ∀ (property : String) (t : Task),
      (withLevels host (levels + 2)).create className [] t
        (storeWithDefault className property (.block [.returns none])) =
      .finished (.signal (.returned .nil)) t
        { storeWithDefault className property (.block [.returns none]) with objects := #[[]] } := by
  refine ⟨?_, ?_, create_returns host levels className⟩
  · intro σ args t s hhost hclass hargs ht hs
    have hcreate : Flow σ.policy σ.reach (fun ev => ev.create className args) fun _ => True :=
      flow_create hclass hargs fun v hv => Sealing.reach_callBack (hargs v hv)
    have hnewObject := flow_newObject (R := σ.reach) hclass
    exact ⟨ignoresFrame_of_flow hhost levels hcreate ht hs,
      ignoresFrame_of_flow hhost levels hnewObject ht hs⟩
  · intro property name frame v hv
    exact create_reads_frame host levels className property name hv

/-- A default makes an object whose constructor has a parameter with the name of a variable. -/
theorem objects_ignore_frames_segment :
    let σ : Sealing := ⟨fun _ => true, fun _ => false, true, fun _ _ => rfl⟩
    let body : Block := [.expr (.assign (.member .this "x" .dot) (.name "x"))]
    let point : ClassDecl := ⟨"Point", none, [⟨"x", none, some (.int 1)⟩],
      [⟨"constructor", [⟨"x", none⟩], some body, false⟩]⟩
    let segment : ClassDecl :=
      ⟨"Segment", some "Point", [⟨"to", none, some (.create "Point" [.int 2])⟩], []⟩
    let s : Store := { classes := .declareAll [point, segment] {} }
    let t : Task := { scope := { calls := [{ vars := [("x", .int 5)] }] } }
    let create := (withLevels .none 9).create "Segment" [.int 3]
    s.Obeys σ.policy ∧ t.Obeys σ.policy ∧ create.IgnoresFrame σ.policy t s := by
  intro σ body point segment s t create
  have hint (n : Int64) : (Job.expr (.int n)).all σ.closes := by
    rw [Job.all]
    simp [Job.parts, Expr.parts, Sealing.closes, σ, Job.isOpen, Expr.isOpen]
  have hto : (Job.expr (.create "Point" [.int 2])).all σ.closes := by
    rw [Job.all]
    simpa [Job.parts, Expr.parts, Sealing.closes, σ, Job.isOpen, Expr.isOpen] using hint 2
  have hpoint : σ.admits point := by
    simpa [Sealing.admits, σ, point] using hint 1
  have hsegment : σ.admits segment := by
    simpa [Sealing.admits, σ, segment] using hto
  have hs : s.Obeys σ.policy := {
    functions := by simp [s]
    known := by simp [Sealing.policy, σ]
    classes := by decide
    table := by
      have hfirst : ClassTable.Checked σ.admits (.declareAll [point] {}) :=
        ClassTable.Checked.empty.register hpoint rfl
      exact hfirst.register hsegment rfl
    objects := by simp [s]
    channels := by simp [s]
    futures := by simp [s]
    files := fun _ place source program htext => by
      unfold FileTree.textAt FileTree.node? at htext
      split at htext <;> simp_all [s] }
  have ht : t.Obeys σ.policy := by
    refine ⟨⟨Dict.obeys_nil, by simp [t]⟩, List.forall_mem_singleton.mpr ⟨?_, by simp⟩⟩
    simp [Dict.Obeys, Value.Obeys]
  obtain ⟨hcreate, -⟩ := objects_ignore_frames .none 9 "Segment"
  exact ⟨hs, ht, (hcreate σ [.int 3] t s (HostHandler.none_flows _) rfl (by simp [Value.Obeys]) ht
    hs).1⟩

end Evaluator

end RouteScript
