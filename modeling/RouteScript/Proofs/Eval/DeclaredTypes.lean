import RouteScript.Proofs.Eval.Calls
import RouteScript.Proofs.Scope.Types

/-!
# Declared types during evaluation

Evaluation keeps the types that variables are declared with, as long as the host writes globals by
assignment only. The one exception are parameters with a type that get no argument: they start as
nil, whatever their type, and may become a container. Globals are never concerned.
-/

namespace RouteScript

variable {host : HostHandler} {exempts base : List (String → Bool)}

namespace Task

/-- The variables of a task are in order and respect their tags, with exemptions for some names in
each frame of a call. -/
structure IsTyped (exempts : List (String → Bool)) (t : Task) : Prop where
  wellFormed : t.scope.WellFormed
  scope : t.scope.IsTyped exempts

/-- The task carries out the same calls, and its variables respect their tags as far as before. -/
structure KeepsTypes (t t' : Task) : Prop where
  framed : t.Framed t'
  typed : ∀ exempts, t.IsTyped exempts → t'.IsTyped exempts

/-- The task is typed with the given exemptions, in the frames of further calls with any. -/
def IsTypedBelow (base : List (String → Bool)) (t : Task) : Prop :=
  ∃ top, t.IsTyped (top ++ base)

variable {t t' : Task}

/-- The frame of a new call has no variables, hence none of a wrong type. -/
theorem IsTyped.enter (h : t.IsTyped exempts) (this : Option Value) :
    (t.enter this).IsTyped ((fun _ => false) :: exempts) :=
  ⟨h.wellFormed.push this, h.scope.push this⟩

/-- A call that is left leaves what the caller had. -/
theorem IsTyped.leave (h : t.IsTyped exempts) (h' : t'.IsTyped base)
    (hleave : t.Isolated t'.leave) : t'.leave.IsTyped exempts where
  wellFormed := h'.wellFormed.pop
  scope := ⟨h'.scope.globals, by rw [hleave.frames]; exact h.scope.calls⟩

end Task

/-! ## Parameters -/

namespace Evaluator

def isLeftOut (param : Parameter) (arg : Option Value) : Bool :=
  arg.isNone && (declaredTag? param).any Tag.isStrict

/-- The exemptions after parameters have been bound: the last parameter of a name decides. -/
def leftOut (exempt : String → Bool) : List Parameter → List Value → String → Bool
  | [], _ => exempt
  | param :: params, args =>
    leftOut (Function.update exempt param.name (isLeftOut param args.head?)) params args.tail

/-- An argument respects the tag of its parameter. A missing one does if the tag is not strict. -/
theorem suits_argument {param : Parameter} {arg : Option Value} {s : Store}
    (haccepts : ∀ value tag, arg = some value → declaredTag? param = some tag →
      s.accepts tag value) :
    (declaredTag? param).all (·.suits false (arg.getD .nil)) = !isLeftOut param arg ∧
      (declaredTag? param).all (·.suits (isLeftOut param arg) (arg.getD .nil)) := by
  cases htag : declaredTag? param with
  | none => simp [isLeftOut, htag]
  | some tag =>
    cases arg with
    | none => cases hstrict : tag.isStrict <;> simp [isLeftOut, htag, hstrict]
    | some value =>
      have hsuits := Store.suits_of_accepts (haccepts value tag rfl htag)
      simp [isLeftOut, hsuits]

/-- The variables of the innermost frame respect their tags exactly if they are not exempt. -/
def ExemptsExactly (exempt : String → Bool) (t : Task) : Prop :=
  ∀ name, t.scope.innermost.isTypedAt false name = !exempt name

/-- Parameters get values of their declared types, except those that the arguments leave out. -/
theorem bindParameters_typed (params : List Parameter) (args : List Value) {t : Task} (s : Store)
    {exempt : String → Bool} (ht : t.IsTyped (exempt :: exempts))
    (hexact : ExemptsExactly exempt t) :
    (bindParameters params args t s).Agrees (fun _ => True)
      (fun o t₁ => t.Framed t₁ ∧ ∃ exempt', t₁.IsTyped (exempt' :: exempts) ∧
        (o = .value () → exempt' = leftOut exempt params args ∧ ExemptsExactly exempt' t₁))
      (bindParameters params args t s) := by
  induction params generalizing args t s exempt with
  | nil => exact .finished trivial ⟨.refl t, exempt, ht, fun _ => ⟨rfl, hexact⟩⟩
  | cons param params ih =>
    have hstep : bindParameters (param :: params) args t s =
        (bindParameter param args.head? t s).bind fun _ => bindParameters params args.tail := rfl
    rw [hstep]
    obtain ⟨fault, hrun⟩ | ⟨haccepts, hrun⟩ := bindParameter_cases param args.head? t s
    · rw [hrun]
      exact .finished trivial ⟨.refl t, exempt, ht, by simp⟩
    · rw [hrun]
      obtain ⟨hdecides, hsuits⟩ := suits_argument haccepts
      have hscope := ht.scope.declare_local ht.wellFormed hsuits param.name
      refine (ih args.tail s ⟨ht.wellFormed.declare .., hscope⟩ fun name => ?_).mono
        fun o t₂ h => ⟨(t.framed_declare ..).trans h.1, h.2⟩
      dsimp only
      rw [Scope.innermost_declare, ht.wellFormed.innermost.isTypedAt_bindTagged]
      by_cases hname : name = param.name
      · simp [hname, hdecides]
      · simp [hname, hexact name]

/-- So a call starts with a typed frame, in which the left out parameters are exempt. -/
theorem bindParameters_enter (params : List Parameter) (args : List Value) (this : Option Value)
    {t : Task} (s : Store) (ht : t.IsTyped exempts) :
    (bindParameters params args (t.enter this) s).Agrees (fun _ => True)
      (fun o t₁ => (t.enter this).Framed t₁ ∧ ∃ exempt', t₁.IsTyped (exempt' :: exempts) ∧
        (o = .value () → exempt' = leftOut (fun _ => false) params args ∧
          ExemptsExactly exempt' t₁))
      (bindParameters params args (t.enter this) s) :=
  bindParameters_typed params args s (ht.enter this) fun _ => rfl

end Evaluator

/-! ## Types are kept -/

namespace Task

variable {t : Task}

theorem KeepsTypes.of_scope {sc : Scope} (hframed : t.scope.Framed sc)
    (hwell : t.scope.WellFormed → sc.WellFormed)
    (htyped : ∀ exempts, t.scope.WellFormed → t.scope.IsTyped exempts → sc.IsTyped exempts) :
    t.KeepsTypes { t with scope := sc } where
  framed := ⟨rfl, hframed⟩
  typed exempts h := ⟨hwell h.wellFormed, htyped exempts h.wellFormed h.scope⟩

/-- A change of one variable keeps all types if it keeps those in the scope. -/
theorem keepsTypes_set {name : String} {value : Value}
    (htyped : ∀ exempts, t.scope.WellFormed → t.scope.IsTyped exempts →
      (t.scope.set name value).IsTyped exempts) :
    t.KeepsTypes { t with scope := t.scope.set name value } :=
  .of_scope (Scope.framed_set name value t.scope) (·.set name value) htyped

/-- A declaration keeps the types if its value suits the tag. -/
theorem keepsTypes_declare (name : String) {value : Value} {tag : Option Tag}
    (hvalue : ∀ e, tag.all (·.suits e value)) :
    t.KeepsTypes { t with scope := t.scope.declare name value tag } :=
  .of_scope (Scope.framed_declare name value tag t.scope) (·.declare name value tag)
    fun _ hwell h => h.declare hwell hvalue name

/-- Types are kept by all that rules do to variables, calls included. -/
theorem discipline_types (base : List (String → Bool)) :
    Discipline (fun _ => True) (IsTypedBelow base) KeepsTypes where
  refl t := ⟨.refl t, fun _ h => h⟩
  trans h h' := ⟨h.framed.trans h'.framed, fun _ ht => h'.typed _ (h.typed _ ht)⟩
  keeps := fun ⟨top, ht⟩ h => ⟨top, h.typed _ ht⟩
  store _ _ := trivial
  directory _ _ := ⟨⟨rfl, .refl _⟩, fun _ h => ⟨h.wellFormed, h.scope⟩⟩
  assign _ haccepts := keepsTypes_set fun _ _ h =>
    h.set fun e tag htag _ => Store.suits_of_accepts (haccepts tag htag) e
  container _ _ _ hkind := keepsTypes_set fun _ hwell h => h.set_container hwell hkind
  declare _ haccepts := keepsTypes_declare _ fun e => by exact Store.suits_of_accepts haccepts e
  bindCaught name _ _ := keepsTypes_declare name fun _ => rfl
  framed h := h.framed
  call params args this := by
    rintro ⟨top, ht⟩ - -
    refine (Evaluator.bindParameters_enter params args this _ ht).mono fun o t₁ h _ => ?_
    obtain ⟨hframed, exempt, ht₁, -⟩ := h
    refine ⟨hframed, ⟨exempt :: top, ht₁⟩, fun t₂ h₂ => ?_⟩
    have hleave := (hframed.trans h₂.framed).isolated_leave
    exact ⟨hleave.framed, fun _ h => h.leave (h₂.typed _ ht₁) hleave⟩

end Task

/-- What the host does for a method is a rule that writes globals by assignment only. -/
def HostHandler.IsPlain (host : HostHandler) : Prop :=
  ∀ className ref method args,
    PlainRule (fun _ _ => True) fun ev => host ev.invoke className ref method args

theorem HostHandler.none_isPlain : HostHandler.none.IsPlain := fun _ _ _ _ => .fail _

/-- A host that writes no globals directly keeps what rules keep. -/
theorem HostHandler.IsPlain.keeps (hhost : host.IsPlain) {I : Task → Prop}
    {K : Task → Task → Prop} (D : Discipline (fun _ => True) I K) :
    host.Keeps (fun _ => True) I K := by
  intro ev ev' hrun className ref method args
  exact (hhost className ref method args).keeps D False.elim (fun _ _ _ _ => trivial) ev.bare
    ev'.bare hrun rfl fun _ _ _ _ => .starve D.toUpkeep

namespace Evaluator

/-- Whether a job starts with variables that respect their tags, with the given exemptions and with
any exemptions in the frames of further calls. -/
def startsTyped (exempts : List (String → Bool)) (t : Task) (_ : Store) : Bool :=
  t.scope.IsTyped (List.replicate (t.scope.depth - exempts.length) (fun _ => true) ++ exempts)

theorem startsTyped_of_isTypedBelow {t : Task} (h : t.IsTypedBelow exempts) (s : Store) :
    startsTyped exempts t s := by
  obtain ⟨top, ht⟩ := h
  have hlength : t.scope.depth - exempts.length = top.length := by
    simp [Scope.depth, ← ht.scope.calls.length_eq]
  refine decide_eq_true (ht.scope.loosen ?_)
  rw [hlength]
  clear ht hlength
  induction top with
  | nil => exact List.forall₂_same.mpr fun _ _ _ h => h
  | cons _ _ ih => exact .cons (fun _ _ => rfl) ih

variable (hhost : host.IsPlain) (levels : Nat) (alarm : Job → Script Value)

include hhost

/-- A rule ends with typed variables and starts every job inside it with such. -/
theorem plain_typed {α : Type} {f : Evaluator → Script α} (hf : PlainRule Store.Step f) {t : Task}
    (ht : t.IsTyped exempts) (s : Store) :
    (f (withLevels host levels) t s).Agrees (fun _ => True)
      (fun o t' => o ≠ .starved → t'.IsTyped exempts)
      (f (watched host (startsTyped exempts) alarm levels) t s) := by
  have D := Task.discipline_types exempts
  have hok (t : Task) (s : Store) (h : t.IsTypedBelow exempts) (_ : True) :=
    startsTyped_of_isTypedBelow h s
  have hrun := plain_keeps D (hhost.keeps D) hok alarm levels hf t s ⟨[], ht⟩ trivial
  exact hrun.mono fun o t' h ho => (h ho).typed _ ht

end Evaluator

/-! ## Interpreters -/

/-- Where the main task ends, its run ends. -/
theorem Run.Ends.settle? {α : Type} {P : Outcome α → Task → Prop} {r : Run α} (h : r.Ends P)
    {ev : Evaluator} {turns : Nat} {pool : List Sleeper} {settled : Settled α}
    (hsettled : ev.settle? turns pool r = some settled) :
    ∃ o, o ≠ .starved ∧ P o settled.task := by
  fun_induction Evaluator.settle? ev turns pool r with
  | case1 =>
    cases hsettled
    cases h with
    | finished h => exact ⟨_, by simp, h⟩
  | case2 =>
    cases hsettled
    cases h with
    | finished h => exact ⟨_, by simp, h⟩
  | case3 => cases hsettled
  | case4 => cases hsettled
  | case5 _ _ _ _ _ _ _ _ ih =>
    cases h with
    | waiting h => exact ih (h _ _) hsettled
  | case6 => cases hsettled
  | case7 _ _ _ _ _ _ _ _ _ ih =>
    cases h with
    | waiting h => exact ih (.waiting h) hsettled

/-- A program that starts with typed variables ends with typed variables, also if it fails. -/
theorem Interpreter.execute_typed {i : Interpreter} (hhost : i.host.IsPlain)
    (ht : i.task.IsTyped exempts) (p : Program) : (i.execute p).2.task.IsTyped exempts := by
  have hrun := Evaluator.plain_typed hhost i.levels (fun _ => Script.starve)
    (Evaluator.plain_program p) ht i.store
  unfold execute run run?
  cases hsettled : i.evaluator.settle? i.levels i.pool (i.evaluator.program p i.task i.store) with
  | none => exact ht
  | some settled =>
    obtain ⟨o, ho, hend⟩ := hrun.ends.settle? hsettled
    exact hend ho

namespace Evaluator

/-- A program that a new interpreter runs leaves every variable with a strict tag with a value that
the tag accepts. From a task whose variables respect their tags, with exemptions in the frames of
calls, statements, blocks, expressions and programs end in such a task. All jobs inside them start
in such a task as well: an evaluator with an alarm for other jobs does the same. The parameters of a
call respect their tags except for those with a strict type that get no argument. -/
theorem evaluation_keeps_types (hhost : host.IsPlain) (levels : Nat) (alarm : Job → Script Value) :
    (∀ settings p,
      let i : Interpreter := { Interpreter.create settings with host, levels }
      let sc := (i.execute p).2.task.scope
      i.task.IsTyped [] ∧ (i.execute p).2.task.IsTyped [] ∧
        ∀ name tag value, sc.tag? name = some tag → sc.get? name = some value → tag.isStrict →
          tag.accepts? value = some true) ∧
    ∀ exempts t s, t.IsTyped exempts →
      let ev := withLevels host levels
      let ev' := watched host (startsTyped exempts) alarm levels
      let R (_ : Store) : Prop := True
      let Typed (o : Outcome Value) (t' : Task) : Prop := o ≠ .starved → t'.IsTyped exempts
      (∀ stmt, (ev.statement stmt t s).Agrees R Typed (ev'.statement stmt t s)) ∧
      (∀ last body, (ev.statements last body t s).Agrees R Typed (ev'.statements last body t s)) ∧
      (∀ e, (ev.evaluate e t s).Agrees R Typed (ev'.evaluate e t s)) ∧
      (∀ p, (ev.program p t s).Agrees R Typed (ev'.program p t s)) ∧
      ∀ params args this,
        let exempt := leftOut (fun _ => false) params args
        (bindParameters params args (t.enter this) s).Ends fun o t' =>
          o = .value () → t'.IsTyped (exempt :: exempts) ∧ ExemptsExactly exempt t' := by
  refine ⟨fun settings p => ?_, fun exempts t s ht => ?_⟩
  · intro i sc
    have hstart : i.task.IsTyped [] := ⟨.empty, .empty⟩
    have hend : (i.execute p).2.task.IsTyped [] := Interpreter.execute_typed hhost hstart p
    refine ⟨hstart, hend, fun name tag value htag hvalue hstrict => ?_⟩
    exact hend.scope.accepts? (by simp) htag hvalue hstrict
  · have hrule {f : Evaluator → Script Value} (hf : PlainRule Store.Step f) :=
      plain_typed hhost levels alarm hf ht s
    refine ⟨fun stmt => hrule (plain_statement stmt),
      fun last body => hrule (plain_statements last body), fun e => hrule (plain_evaluate e),
      fun p => hrule (plain_program p), fun params args this => ?_⟩
    refine (bindParameters_enter params args this s ht).ends.mono fun o t' h ho => ?_
    obtain ⟨-, exempt, ht', hexact⟩ := h
    obtain ⟨rfl, hexact⟩ := hexact ho
    exact ⟨ht', hexact⟩

/-- A function with a number as its parameter that is called without an argument finds nil there. -/
theorem evaluation_keeps_types_left_out :
    let params : List Parameter := [{ name := "x", typeName := some "int" }]
    let body : Block := [.returns (some (.call (.name "typeof") [.name "x"]))]
    let decl : FunctionDecl := { name := "f", params, isInit := false, body := some body }
    let s : Store := { functions := [("f", decl)] }
    let t : Task := { scope := ((Scope.push none {}).declare "x" .nil (some .int)), calls := 1 }
    HostHandler.none.IsPlain ∧ Task.IsTyped [] {} ∧
      (withLevels .none 9).evaluate (.call (.name "f") []) {} s =
        .finished (.value (.text "nil")) {} s ∧
      bindParameters params [] (({} : Task).enter none) s = .finished (.value ()) t s ∧
      t.IsTyped [leftOut (fun _ => false) params []] ∧ leftOut (fun _ => false) params [] "x" ∧
      ¬ t.IsTyped [fun _ => false] := by
  intro params body decl s t
  have hstart : Task.IsTyped [] {} := ⟨.empty, .empty⟩
  have hbind := ((evaluation_keeps_types HostHandler.none_isPlain 9
    fun _ => Script.starve).2 [] {} s hstart).2.2.2.2 params [] none
  refine ⟨HostHandler.none_isPlain, hstart, rfl, rfl, ?_, rfl, ?_⟩
  · cases hbind with
    | finished h => exact (h rfl).1
  · intro h
    have hscope := h.scope
    revert hscope
    decide

end Evaluator

end RouteScript
