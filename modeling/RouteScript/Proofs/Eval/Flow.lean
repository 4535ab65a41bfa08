import RouteScript.Proofs.Eval.Policy
import RouteScript.Proofs.Eval.Rule

/-!
# Rules under a policy

What the rules of evaluation are made of if everything obeys a policy. Each piece says what it needs
and what its result is like, so that a policy is kept along the way. Unlike other rules, these start
only jobs within their reach, look at no more of their task than what is in sight, and wait or loop
only if the policy allows it.
-/

namespace RouteScript

/-- The tasks look alike from inside: they have the same globals, receiver and directory and, if
`inner` holds, the same innermost frame. -/
structure Task.Alike (inner : Prop) (t t' : Task) : Prop where
  globals : t'.scope.globals = t.scope.globals
  this : t'.scope.this = t.scope.this
  directory : t'.directory = t.directory
  innermost : inner → t'.scope.innermost = t.scope.innermost

namespace Task.Alike

variable {inner : Prop} {t t' : Task} (h : t.Alike inner t') (hinner : inner) (name : String)

include h hinner

/-- A name belongs to the same frame in both tasks. -/
theorem owner_eq : t'.scope.owner name = t.scope.owner name := by
  simp [Scope.owner, Scope.isInner, h.innermost hinner, h.globals]

theorem get?_eq : t'.scope.get? name = t.scope.get? name := by
  rw [Scope.get?, Scope.get?, h.owner_eq hinner]

theorem tag?_eq : t'.scope.tag? name = t.scope.tag? name := by
  rw [Scope.tag?, Scope.tag?, h.owner_eq hinner]

theorem contains_eq : t'.scope.contains name = t.scope.contains name := by
  rw [Scope.contains, Scope.contains, h.get?_eq hinner]

end Task.Alike

def Signal.isJump : Signal → Bool
  | .returned _ | .broken | .continued => true
  | .thrown _ | .failed _ => false

structure Reach (π : Policy) where
  /-- The jobs that may be started. -/
  job : Job → Prop
  /-- The classes of which objects may be made. -/
  builds : String → Prop
  /-- Whether the rule belongs to the code of the innermost frame: it may use the variables in sight
  and jump out of its call or loop. -/
  atHome : Prop
  /-- Whether the statements of a script may be started by loading it. -/
  starts : Prop
  /-- The defaults of these classes may be evaluated. -/
  initial {table : ClassTable} {className : String} {entry : ClassEntry} {property : PropertyDecl}
    {e : Expr} : π.table table → (∀ entry ∈ table.entries, entry.decl.passes π.code) →
    builds className → entry ∈ table.chain className → property ∈ entry.decl.properties →
    property.initial = some e → job (.expr e)

/-- The signal obeys the policy, and it jumps only if it is at home. -/
def Reach.Admits {π : Policy} (R : Reach π) (x : Signal) : Prop :=
  x.Obeys π ∧ (x.isJump → R.atHome)

/-- A fault may leave any rule. -/
theorem Reach.admits_failed {π : Policy} (R : Reach π) (fault : Fault) :
    R.Admits (.failed fault) :=
  ⟨trivial, by simp [Signal.isJump]⟩

/-- The scripts that rules under a policy are made of, with what holds of their results. -/
inductive Flow (π : Policy) (R : Reach π) :
    {α : Type} → (Evaluator → Script α) → (α → Prop) → Prop
  | pure {α : Type} {Q : α → Prop} {a : α} : Q a → Flow π R (fun _ => Pure.pure a) Q
  | bind {α β : Type} {P : α → Prop} {Q : β → Prop} {m : Evaluator → Script α}
    {next : Evaluator → α → Script β} :
    Flow π R m P → (∀ a, P a → Flow π R (next · a) Q) → Flow π R (fun ev => m ev >>= next ev) Q
  | capture {α : Type} {Q : α → Prop} {m : Evaluator → Script α} :
    Flow π R m Q → Flow π R (fun ev => (m ev).capture) (Signal.Ends R.Admits Q)
  | weaken {α : Type} {P Q : α → Prop} {m : Evaluator → Script α} :
    Flow π R m P → (∀ a, P a → Q a) → Flow π R m Q
  | signal {α : Type} {Q : α → Prop} {x : Signal} :
    R.Admits x → Flow π R (fun _ => Script.signal x) Q
  | starve {α : Type} {Q : α → Prop} : π.unbounded → Flow π R (fun _ => Script.starve) Q
  | view {α : Type} {Q : α → Prop} {f : Task → Evaluator → Script α} :
    (∀ t t', t.Alike R.atHome t' → f t' = f t) → (∀ t, t.Obeys π → Flow π R (f t) Q) →
    Flow π R (fun ev t s => f t ev t s) Q
  | store : Flow π R (fun _ => Script.store) (Store.Obeys π)
  | update {α : Type} {Q : α → Prop} {f : Store → α × Store} :
    (∀ s, s.Obeys π → s.Step (f s).2 ∧ (f s).2.Obeys π ∧ Q (f s).1) →
    Flow π R (fun _ => Script.update f) Q
  | encode {v : Value} : v.Obeys π → Flow π R (fun _ => Builtin.encode v) (Value.Obeys π)
  | request {r : Request} : π.unbounded → r.Obeys π →
    Flow π R (fun _ => Script.request r) (r.Brings π)
  | rounds {α : Type} {Q : α → Prop} {m : Nat → Evaluator → Script α} : π.unbounded →
    (∀ n, Flow π R (m n) Q) → Flow π R (fun ev => m ev.rounds ev) Q
  | run {job : Job} : R.job job → Flow π R (fun ev => ev.run job) (Value.Obeys π)
  | host (className : String) (ref : ObjectRef) (method : String) {args : List Value} :
    (∀ v ∈ args, v.Obeys π) →
    Flow π R (fun ev => ev.host ev.invoke className ref method args) (Value.Obeys π)
  | invoke {decl : FunctionDecl} {args : List Value} {this : Option Value} :
    decl.passes π.code → (∀ v ∈ args, v.Obeys π) → (∀ v ∈ this, v.Obeys π) →
    Flow π R (fun ev => ev.invokeFunction decl args this) (Value.Obeys π)
  | assign (name : String) {value : Value} : R.atHome → value.Obeys π →
    Flow π R (fun _ => Script.assignVariable name value) fun _ => True
  | storeIn (name : String) (key : Option Value) {value : Value} : R.atHome → value.Obeys π →
    Flow π R (fun _ => Evaluator.storeInVariable name key value) fun _ => True
  | declare (name : String) (tag : Tag) {value : Value} : R.atHome → value.Obeys π →
    Flow π R (fun _ => Script.declareVariable name tag value) fun _ => True
  | bindCaught (name : String) {value : Value} : R.atHome → value.Obeys π →
    Flow π R (fun _ => Script.modifyScope (·.declare name value none)) fun _ => True
  | declareClass {decl : ClassDecl} : π.code.stmt (.classDef decl) → decl.passes π.code →
    Flow π R (fun _ => Evaluator.declareClass decl) fun _ => True
  | load (path : String) : R.atHome → π.unbounded →
    Flow π R (fun ev => ev.load path) fun _ => True
  | start (place : List String) : R.starts →
    Flow π R (fun _ => Script.modifyStore (·.start place)) fun _ => True

namespace Flow

variable {π : Policy} {R : Reach π} {α β : Type} {P Q : α → Prop}

/-! ## Simple scripts -/

theorem map {m : Evaluator → Script α} {Q : β → Prop} (f : α → β) (h : Flow π R m P)
    (hf : ∀ a, P a → Q (f a)) : Flow π R (fun ev => f <$> m ev) Q :=
  .bind h fun a ha => .pure (hf a ha)

theorem fail (fault : Fault) : Flow π R (fun _ => (Script.fail fault : Script α)) Q :=
  .signal (R.admits_failed fault)

/-- A check gives a result in `Q` or a fault. -/
theorem ofExcept {x : Except Fault α} (h : ∀ a, x = .ok a → Q a) :
    Flow π R (fun _ => Script.ofExcept x) Q := by
  cases x with
  | ok a => exact .pure (h a rfl)
  | error fault => exact .fail fault

theorem release {x : Except Signal α} (h : Signal.Ends R.Admits Q x) :
    Flow π R (fun _ => Script.release x) Q := by
  cases x with
  | ok a => exact .pure h
  | error x => exact .signal h

theorem modifyStore {f : Store → Store} (hstep : ∀ s : Store, s.Step (f s))
    (h : ∀ s, s.Obeys π → (f s).Obeys π) : Flow π R (fun _ => Script.modifyStore f) fun _ => True :=
  .update (f := fun s => ((), f s)) fun s hs => ⟨hstep s, h s hs, trivial⟩

theorem write (text : String) : Flow π R (fun _ => Script.write text) fun _ => True :=
  .modifyStore (fun _ => .write text) fun _ hs => { hs with }

theorem setField (ref : ObjectRef) (name : String) {v : Value} (hv : v.Obeys π) :
    Flow π R (fun _ => Script.modifyStore (·.setField ref name v)) fun _ => True :=
  .modifyStore (fun _ => .fields ref _) fun _ hs => hs.setField ref name hv

/-- A rule may branch on what it knows, and each branch knows how the test came out. -/
theorem ite {c : Prop} [Decidable c] {m m' : Evaluator → Script α} (h : c → Flow π R m Q)
    (h' : ¬ c → Flow π R m' Q) : Flow π R (fun ev => if c then m ev else m' ev) Q := by
  by_cases hc : c
  · simpa only [if_pos hc] using h hc
  · simpa only [if_neg hc] using h' hc

/-! ## What is in sight -/

/-- A rule may look at its task as far as tasks that look alike agree. -/
theorem task {next : Evaluator → Task → Script α}
    (hcongr : ∀ t t', t.Alike R.atHome t' → (next · t') = (next · t))
    (h : ∀ t, t.Obeys π → Flow π R (next · t) Q) :
    Flow π R (fun ev => Script.task >>= next ev) Q :=
  .view (f := fun t ev => next ev t) hcongr h

theorem scope {next : Evaluator → Scope → Script α}
    (hcongr : ∀ t t' : Task, t.Alike R.atHome t' → (next · t'.scope) = (next · t.scope))
    (h : ∀ sc, sc.Obeys π → Flow π R (next · sc) Q) :
    Flow π R (fun ev => Script.scope >>= next ev) Q :=
  .view (f := fun t ev => next ev t.scope) hcongr fun t => h t.scope

/-! ## Jobs inside a rule -/

theorem expr {e : Expr} (h : R.job (.expr e)) : Flow π R (fun ev => ev.expr e) (Value.Obeys π) :=
  .run h

theorem block {body : Block} (h : R.job (.block body)) :
    Flow π R (fun ev => ev.block body) (Value.Obeys π) :=
  .run h

theorem test {e : Expr} (h : R.job (.expr e)) : Flow π R (fun ev => ev.test e) fun _ => True :=
  .bind (.expr h) fun _ _ => .pure trivial

/-- Settling turns jumps into faults, so that none leaves the rule. -/
theorem settle {m : Evaluator → Script Value} (h : Flow π R m (Value.Obeys π)) :
    Flow π R (fun ev => (m ev).settle) (Value.Obeys π) := by
  refine .bind h.capture fun outcome houtcome => ?_
  match outcome with
  | .ok v => exact .pure houtcome
  | .error (.returned v) => exact .pure houtcome.1
  | .error .broken | .error .continued | .error (.thrown _) | .error (.failed _) => exact .fail _

/-! ## Loops -/

/-- A list is worked through element by element, each of which leads to a result in `Q`. -/
theorem each {f : Evaluator → α → Script β} {Q : β → Prop} {l : List α}
    (h : ∀ a ∈ l, Flow π R (f · a) Q) :
    Flow π R (fun ev => Script.each (f ev) l) fun l' => ∀ b ∈ l', Q b := by
  induction l with
  | nil => exact .pure (by simp)
  | cons a rest ih =>
    rw [List.forall_mem_cons] at h
    refine .bind h.1 fun b hb => .bind (ih h.2) fun bs hbs => .pure ?_
    exact List.forall_mem_cons.mpr ⟨hb, hbs⟩

theorem exprs {l : List Expr} (h : ∀ e ∈ l, R.job (.expr e)) :
    Flow π R (fun ev => ev.exprs l) fun values => ∀ v ∈ values, v.Obeys π :=
  each fun e he => .expr (h e he)

theorem forWhile {f : Evaluator → α → Script Bool} {l : List α}
    (h : ∀ a ∈ l, Flow π R (f · a) fun _ => True) :
    Flow π R (fun ev => Script.forWhile (f ev) l) fun _ => True := by
  induction l with
  | nil => exact .pure trivial
  | cons a rest ih =>
    rw [List.forall_mem_cons] at h
    exact .bind h.1 fun _ _ => .ite (fun _ => ih h.2) fun _ => .pure trivial

/-- A loop needs a policy under which loops may go on without a bound. -/
theorem repeatWhile {round : Evaluator → Script Bool} (hbound : π.unbounded)
    (h : Flow π R round fun _ => True) :
    Flow π R (fun ev => Script.repeatWhile ev.rounds (round ev)) fun _ => True := by
  refine .rounds (m := fun n ev => Script.repeatWhile n (round ev)) hbound fun n => ?_
  induction n with
  | zero => exact .starve hbound
  | succ n ih => exact .bind h fun _ _ => .ite (fun _ => ih) fun _ => .pure trivial

theorem iterate {round : Evaluator → α → Script (Option α)} (hbound : π.unbounded)
    (h : ∀ a, Flow π R (round · a) fun _ => True) (a : α) :
    Flow π R (fun ev => Script.iterate ev.rounds (round ev) a) fun _ => True := by
  refine .rounds (m := fun n ev => Script.iterate n (round ev) a) hbound fun n => ?_
  induction n generalizing a with
  | zero => exact .starve hbound
  | succ n ih =>
    refine .bind (h a) fun next _ => ?_
    cases next with
    | none => exact .pure trivial
    | some next => exact ih next

end Flow

end RouteScript
