import RouteScript.Interpreter
import RouteScript.Proofs.Eval.Agreement
import RouteScript.Proofs.Eval.FlowEvaluator
import RouteScript.Proofs.Eval.ObjectGraph

/-!
# Rules that halt

From some number of levels on, a rule does the same with any number of levels and comes to an end,
if the jobs and calls inside it do and nothing in it can go on without a bound. It is given up only
if a document is asked for while objects hold each other in a circle.
-/

namespace RouteScript

/-! ## Runs -/

/-- From some number on, the runs are one and the same finished run, and it ends with `P`. -/
def Halts {α : Type} (r : Nat → Run α) (P : Outcome α → Task → Store → Prop) : Prop :=
  ∃ bound o t s, (∀ n, bound ≤ n → r n = .finished o t s) ∧ P o t s

namespace Halts

variable {α β : Type} {r : Nat → Run α} {P : Outcome α → Task → Store → Prop}

theorem of_eq {o : Outcome α} {t : Task} {s : Store} (hr : ∀ n, r n = .finished o t s)
    (h : P o t s) : Halts r P :=
  ⟨0, o, t, s, fun n _ => hr n, h⟩

theorem mono {Q : Outcome α → Task → Store → Prop} (h : Halts r P)
    (hPQ : ∀ o t s, P o t s → Q o t s) : Halts r Q := by
  obtain ⟨bound, o, t, s, hr, h⟩ := h
  exact ⟨bound, o, t, s, hr, hPQ o t s h⟩

/-- A level more makes no difference. -/
theorem succ {r' : Nat → Run α} (h : Halts r P) (hr : ∀ n, r' (n + 1) = r n) : Halts r' P := by
  obtain ⟨bound, o, t, s, hbound, h⟩ := h
  refine ⟨bound + 1, o, t, s, fun n hn => ?_, h⟩
  obtain ⟨n, rfl⟩ := Nat.exists_eq_add_of_le' (Nat.le_of_add_left_le hn)
  rw [hr, hbound n (by omega)]

/-- Runs that halt one after the other halt, with the larger one of their bounds. -/
theorem bind {Q : Outcome β → Task → Store → Prop} {next : Nat → α → Task → Store → Run β}
    (h : Halts r P) (hvalue : ∀ a t s, P (.value a) t s → Halts (fun n => next n a t s) Q)
    (hsignal : ∀ x t s, P (.signal x) t s → Q (.signal x) t s)
    (hstarved : ∀ t s, P .starved t s → Q .starved t s) :
    Halts (fun n => (r n).bind (next n)) Q := by
  obtain ⟨bound, o, t, s, hr, h⟩ := h
  cases o with
  | value a =>
    obtain ⟨bound', o', t', s', hnext, h'⟩ := hvalue a t s h
    refine ⟨max bound bound', o', t', s', fun n hn => ?_, h'⟩
    exact (congrArg (Run.bind (next n)) (hr n (by omega))).trans (hnext n (by omega))
  | signal x =>
    exact ⟨bound, .signal x, t, s, fun n hn => congrArg (Run.bind (next n)) (hr n hn),
      hsignal x t s h⟩
  | starved =>
    exact ⟨bound, .starved, t, s, fun n hn => congrArg (Run.bind (next n)) (hr n hn),
      hstarved t s h⟩

theorem capture {Q : Outcome (Except Signal α) → Task → Store → Prop} (h : Halts r P)
    (hvalue : ∀ a t s, P (.value a) t s → Q (.value (.ok a)) t s)
    (hsignal : ∀ x t s, P (.signal x) t s → Q (.value (.error x)) t s)
    (hstarved : ∀ t s, P .starved t s → Q .starved t s) :
    Halts (fun n => (r n).capture) Q := by
  obtain ⟨bound, o, t, s, hr, h⟩ := h
  cases o with
  | value a =>
    exact ⟨bound, .value (.ok a), t, s, fun n hn => congrArg Run.capture (hr n hn),
      hvalue a t s h⟩
  | signal x =>
    exact ⟨bound, .value (.error x), t, s, fun n hn => congrArg Run.capture (hr n hn),
      hsignal x t s h⟩
  | starved =>
    exact ⟨bound, .starved, t, s, fun n hn => congrArg Run.capture (hr n hn), hstarved t s h⟩

end Halts

/-! ## Scripts -/

/-- A state that obeys a policy, with a number of calls and a limit for them. -/
structure Steady (π : Policy) (limit calls : Nat) (t : Task) (s : Store) : Prop where
  task : t.Obeys π
  store : s.Obeys π
  calls : t.calls = calls
  limit : s.settings.callLimit = limit

namespace Steady

variable {π : Policy} {limit calls : Nat} {t : Task} {s : Store} {v : Value}

/-- An assignment of a value under the policy keeps a task steady. -/
theorem set (h : Steady π limit calls t s) (hv : v.Obeys π) (name : String) :
    Steady π limit calls (t.set name v) s :=
  ⟨Scope.Obeys.set h.task hv name, h.store, h.calls, h.limit⟩

theorem declare (h : Steady π limit calls t s) (hv : v.Obeys π) (name : String)
    (tag : Option Tag) : Steady π limit calls (t.declare name v tag) s :=
  ⟨Scope.Obeys.declare h.task hv name tag, h.store, h.calls, h.limit⟩

/-- A call makes one more call of a steady task. -/
theorem enter (h : Steady π limit calls t s) {this : Option Value} (hthis : ∀ v ∈ this, v.Obeys π) :
    Steady π limit (calls + 1) (t.enter this) s :=
  ⟨h.task.enter hthis, h.store, by simp [Task.enter, h.calls], h.limit⟩

/-- The end of a call leads back to as many calls as before. -/
theorem leave (h : Steady π limit (calls + 1) t s) : Steady π limit calls t.leave s :=
  ⟨h.task.leave, h.store, by simp [Task.leave, h.calls], h.limit⟩

end Steady

/-- A run ends in order, with a value in `Q` or a signal that obeys the policy, or it is given up
because objects hold each other in a circle. -/
def EndsSteady (π : Policy) (limit calls : Nat) {α : Type} (Q : α → Prop) :
    Outcome α → Task → Store → Prop
  | .value a, t, s => Steady π limit calls t s ∧ Q a
  | .signal x, t, s => Steady π limit calls t s ∧ x.Obeys π
  | .starved, _, s => s.HasCycle

def HaltsAt (π : Policy) (limit calls : Nat) {α : Type} (f : Evaluator → Script α)
    (Q : α → Prop) : Prop :=
  ∀ t s, Steady π limit calls t s →
    Halts (fun n => f (.withLevels .none n) t s) (EndsSteady π limit calls Q)

namespace HaltsAt

variable {π : Policy} {limit calls : Nat} {α β : Type} {Q : α → Prop}

theorem pure {a : α} (ha : Q a) : HaltsAt π limit calls (fun _ => Pure.pure a) Q :=
  fun _ _ h => .of_eq (fun _ => rfl) ⟨h, ha⟩

theorem signal {x : Signal} (hx : x.Obeys π) :
    HaltsAt π limit calls (fun _ => Script.signal x) Q :=
  fun _ _ h => .of_eq (fun _ => rfl) ⟨h, hx⟩

/-- Scripts in a row halt if the second one does for all results of the first. -/
theorem bind {f : Evaluator → Script α} {next : Evaluator → α → Script β} {Q' : β → Prop}
    (h : HaltsAt π limit calls f Q) (hnext : ∀ a, Q a → HaltsAt π limit calls (next · a) Q') :
    HaltsAt π limit calls (fun ev => f ev >>= next ev) Q' :=
  fun t s hts => (h t s hts).bind (fun a t' s' ha => hnext a ha.2 t' s' ha.1)
    (fun _ _ _ h => h) fun _ _ h => h

theorem mono {f : Evaluator → Script α} {Q' : α → Prop} (h : HaltsAt π limit calls f Q)
    (hQ : ∀ a, Q a → Q' a) : HaltsAt π limit calls f Q' := by
  refine fun t s hts => (h t s hts).mono fun o t' s' h => ?_
  cases o with
  | value a => exact ⟨h.1, hQ a h.2⟩
  | signal x => exact h
  | starved => exact h

/-- A job halts if its rule does. -/
theorem run {job : Job} {Q : Value → Prop} (h : HaltsAt π limit calls (fun ev => ev.step job) Q) :
    HaltsAt π limit calls (fun ev => ev.run job) Q :=
  fun t s hts => (h t s hts).succ fun _ => rfl

/-! ### Variables -/

/-- A change after a check halts at once, with a fault or with the change. -/
theorem checked {check : Except Fault Unit} {f : Task → Task} {t : Task} {s : Store}
    (hts : Steady π limit calls t s) (hf : Steady π limit calls (f t) s) :
    Halts (fun _ => Run.checked check f t s) (EndsSteady π limit calls fun _ => True) := by
  cases check with
  | ok => exact .of_eq (fun _ => rfl) ⟨hf, trivial⟩
  | error fault => exact .of_eq (fun _ => rfl) ⟨hts, trivial⟩

theorem assignVariable (name : String) {value : Value} (hvalue : value.Obeys π) :
    HaltsAt π limit calls (fun _ => Script.assignVariable name value) fun _ => True := by
  intro t s hts
  simp only [Script.assignVariable_eq]
  exact checked hts (hts.set hvalue name)

theorem declareVariable (name : String) (tag : Tag) {value : Value} (hvalue : value.Obeys π) :
    HaltsAt π limit calls (fun _ => Script.declareVariable name tag value) fun _ => True := by
  intro t s hts
  simp only [Script.declareVariable_eq]
  exact checked hts (hts.declare hvalue name _)

theorem placeInVariable (name : String) (key : Option Value) {value : Value}
    (hvalue : value.Obeys π) :
    HaltsAt π limit calls (fun _ => Evaluator.placeInVariable name key value) fun _ => True := by
  intro t s hts
  simp only [Evaluator.placeInVariable_eq]
  have hcontainer : (((t.scope.get? name).getD .nil).prepared key).Obeys π :=
    Value.obeys_prepared (Value.obeys_getD (Scope.Obeys.get? hts.task) Value.obeys_nil) key
  have hprepared := hts.set hcontainer name
  split
  · exact .of_eq (fun _ => rfl) ⟨hprepared, trivial⟩
  · rename_i hplace
    have hchanged := Value.obeys_place hcontainer hvalue hplace
    exact .of_eq (fun _ => rfl) ⟨hprepared.set hchanged name, trivial⟩
  · exact .of_eq (fun _ => rfl)
      ⟨{ hprepared with store := hts.store.setField _ _ hvalue }, trivial⟩

theorem storeInVariable (name : String) (key : Option Value) {value : Value}
    (hvalue : value.Obeys π) :
    HaltsAt π limit calls (fun _ => Evaluator.storeInVariable name key value) fun _ => True := by
  have hplace : HaltsAt π limit calls (fun _ => Evaluator.placeInVariable name key value)
      fun _ => True := placeInVariable name key hvalue
  intro t s hts
  simp only [Evaluator.storeInVariable_eq]
  split
  · exact hplace t s hts
  · exact ((assignVariable name Value.obeys_nil).bind fun _ _ => hplace) t s hts

/-! ### Calls -/

/-- Binding parameters halts, with all of them bound or with one of them refused. -/
theorem bindParameters (params : List Parameter) {args : List Value}
    (hargs : ∀ v ∈ args, v.Obeys π) :
    HaltsAt π limit calls (fun _ => Evaluator.bindParameters params args) fun _ => True := by
  induction params generalizing args with
  | nil => exact pure trivial
  | cons param params ih =>
    have hbind : HaltsAt π limit calls (fun _ => Evaluator.bindParameter param args.head?)
        fun _ => True := by
      intro t s hts
      simp only [Evaluator.bindParameter_eq]
      have harg : (args.head?.getD .nil).Obeys π :=
        Value.obeys_getD (fun v hv => hargs v (List.mem_of_mem_head? hv)) trivial
      exact checked hts (hts.declare harg _ _)
    exact hbind.bind fun _ _ => ih fun v hv => hargs v (List.mem_of_mem_tail hv)

/-- A call ends with what its body ends with, jumps apart. -/
theorem callResult {outcome : Except Signal Value}
    (houtcome : Signal.Ends (Signal.Obeys π) (Value.Obeys π) outcome) :
    HaltsAt π limit calls (fun _ => Evaluator.callResult outcome) (Value.Obeys π) := by
  match outcome with
  | .ok v | .error (.returned v) => exact pure houtcome
  | .error .broken | .error .continued => exact signal trivial
  | .error (.thrown _) | .error (.failed _) => exact signal houtcome

/-- A call halts if the body of the function does with one call more, or if there are too many calls
already. -/
theorem invokeFunction {decl : FunctionDecl} {args : List Value} {this : Option Value}
    (hargs : ∀ v ∈ args, v.Obeys π) (hthis : ∀ v ∈ this, v.Obeys π)
    (hbody : ∀ body, decl.body = some body → calls < limit →
      HaltsAt π limit (calls + 1) (fun ev => ev.block body) (Value.Obeys π)) :
    HaltsAt π limit calls (fun ev => ev.invokeFunction decl args this) (Value.Obeys π) := by
  cases hdecl : decl.body with
  | none =>
    simp only [Evaluator.invokeFunction, hdecl]
    exact signal trivial
  | some body =>
    intro t s hts
    simp only [Evaluator.invokeFunction_apply _ hdecl, hts.calls, hts.limit]
    split
    · exact .of_eq (fun _ => rfl) ⟨hts, trivial⟩
    · rename_i hlimit
      have hinside := (bindParameters decl.params hargs).bind
        fun _ _ => hbody body hdecl (Nat.lt_of_not_le hlimit)
      -- the body may end with any signal, but not so once it is captured
      have hcaptured := (hinside _ _ (hts.enter hthis)).capture
        (Q := fun o t' s' => (∀ x, o ≠ .signal x) ∧
          EndsSteady π limit (calls + 1) (Signal.Ends (Signal.Obeys π) (Value.Obeys π)) o t' s')
        (fun _ _ _ h => ⟨by simp, h⟩) (fun _ _ _ h => ⟨by simp, h⟩) fun _ _ h => ⟨by simp, h⟩
      refine hcaptured.bind ?_ (fun x _ _ h => absurd rfl (h.1 x)) fun _ _ h => h.2
      exact fun outcome t' s' h => callResult h.2.2 _ _ h.2.1.leave

end HaltsAt

/-! ## Rules -/

/-- A rule under a policy without unbounded things halts, if the jobs within its reach and all calls
do. -/
theorem Flow.haltsAt {π : Policy} {R : Reach π} {limit calls : Nat} (hbound : ¬ π.unbounded)
    (home : R.atHome)
    (hrun : ∀ job, R.job job → HaltsAt π limit calls (fun ev => ev.run job) (Value.Obeys π))
    (hinvoke : ∀ decl args this, decl.passes π.code → (∀ v ∈ args, v.Obeys π) →
      (∀ v ∈ this, v.Obeys π) →
      HaltsAt π limit calls (fun ev => ev.invokeFunction decl args this) (Value.Obeys π))
    {α : Type} {f : Evaluator → Script α} {Q : α → Prop} (h : Flow π R f Q) :
    HaltsAt π limit calls f Q := by
  induction h with
  | pure ha => exact .pure ha
  | bind _ _ ih ihnext => exact .bind ih ihnext
  | capture _ ih =>
    refine fun t s hts => (ih t s hts).capture (fun _ _ _ h => h) ?_ fun _ _ h => h
    exact fun _ _ _ h => ⟨h.1, h.2, fun _ => home⟩
  | weaken _ hQ ih => exact ih.mono hQ
  | signal hx => exact .signal hx.1
  | starve h => contradiction
  | view _ _ ih => exact fun t s hts => ih t hts.task t s hts
  | store => exact fun t s hts => .of_eq (fun _ => rfl) ⟨hts, hts.store⟩
  | @update _ _ f hf =>
    intro t s hts
    obtain ⟨hstep, hobeys, hQ⟩ := hf s hts.store
    refine .of_eq (fun _ => rfl) ⟨{ hts with store := hobeys, limit := ?_ }, hQ⟩
    rw [hstep.settings_eq, hts.limit]
  | @encode v hv =>
    intro t s hts
    simp only [Builtin.encode_eq]
    split
    · exact .of_eq (fun _ => rfl) ⟨hts, trivial⟩
    · exact .of_eq (fun _ => rfl) (Store.hasCycle_of_not_endsWithin ‹_›)
  | request h => contradiction
  | rounds h => contradiction
  | run hjob => exact hrun _ hjob
  | host className ref method hargs => exact .signal trivial
  | invoke hdecl hargs hthis => exact hinvoke _ _ _ hdecl hargs hthis
  | assign name _ hvalue => exact .assignVariable name hvalue
  | storeIn name key _ hvalue => exact .storeInVariable name key hvalue
  | declare name tag _ hvalue => exact .declareVariable name tag hvalue
  | bindCaught name _ hvalue =>
    exact fun t s hts => .of_eq (fun _ => rfl) ⟨hts.declare hvalue name none, trivial⟩
  | @declareClass decl hstmt hdecl =>
    intro t s hts
    simp only [Evaluator.declareClass_eq]
    split
    · have hstore := hts.store.declareClass hstmt hdecl ‹_›
      exact .of_eq (fun _ => rfl) ⟨{ hts with store := hstore }, trivial⟩
    · exact .of_eq (fun _ => rfl) ⟨hts, trivial⟩
  | load path _ h => contradiction
  | start place =>
    intro t s hts
    exact .of_eq (fun _ => rfl) ⟨{ hts with store := { hts.store with } }, trivial⟩

end RouteScript
