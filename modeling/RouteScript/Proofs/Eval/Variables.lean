import RouteScript.Eval.Call
import RouteScript.Eval.Target
import RouteScript.Proofs.Scope.WellFormed

/-!
# Scripts that change variables

A script that changes variables fails or makes one of a few changes. What holds of variables during
evaluation is derived from these alternatives.
-/

namespace RouteScript

namespace Value

/-- Preparing a container twice is preparing it once. -/
theorem prepared_prepared (key : Option Value) (v : Value) :
    (v.prepared key).prepared key = v.prepared key := by
  cases v with
  | nil =>
    rcases key with _ | key
    · rfl
    · cases key <;> rfl
  | _ => rfl

/-- Storing an element does not change the kind of its container. -/
theorem kind_of_place {container value changed : Value} {key : Option Value}
    (h : container.place key value = .ok (.container changed)) : changed.kind = container.kind := by
  unfold place at h
  split at h
  · cases h; rfl
  · split at h
    · cases h; rfl
    · split at h <;> cases h
      rfl
  all_goals cases h
  rfl

end Value

/-- A check fails or accepts the value. -/
theorem Store.check_cases (s : Store) (name : String) (tag : Tag) (value : Value) :
    (∃ fault, s.check name tag value = .error fault) ∨
      s.accepts tag value ∧ s.check name tag value = .ok () := by
  unfold check
  split
  · exact .inr ⟨‹_›, rfl⟩
  · exact .inl ⟨_, rfl⟩

namespace Script

theorem bind_apply {α β : Type} (m : Script α) (next : α → Script β) (t : Task) (s : Store) :
    (m >>= next) t s = (m t s).bind next :=
  rfl

theorem scope_bind_apply {α : Type} (next : Scope → Script α) (t : Task) (s : Store) :
    (scope >>= next) t s = next t.scope t s := by
  rw [bind_apply]
  rfl

/-- An assignment fails, or the tag of the variable accepts the value. -/
theorem assignVariable_cases (name : String) (value : Value) (t : Task) (s : Store) :
    (∃ fault, assignVariable name value t s = .finished (.signal (.failed fault)) t s) ∨
    (∀ tag, t.scope.tag? name = some tag → s.accepts tag value) ∧
      assignVariable name value t s =
        .finished (.value ()) { t with scope := t.scope.set name value } s := by
  cases htag : t.scope.tag? name with
  | none =>
    refine .inr ⟨fun _ h => (by cases h), ?_⟩
    simp only [assignVariable, scope_bind_apply, htag]
    rfl
  | some tag =>
    have hrun : assignVariable name value t s =
        (ofExcept (s.check name tag value) t s).bind fun _ => modifyScope (·.set name value) := by
      simp only [assignVariable, scope_bind_apply, htag]
      rfl
    rw [hrun]
    obtain ⟨fault, hfault⟩ | ⟨haccepts, hok⟩ := s.check_cases name tag value
    · rw [hfault]
      exact .inl ⟨fault, rfl⟩
    · rw [hok]
      refine .inr ⟨fun tag' h => ?_, rfl⟩
      cases h
      exact haccepts

/-- A declaration fails, or the tag accepts the value. -/
theorem declareVariable_cases (name : String) (tag : Tag) (value : Value) (t : Task) (s : Store) :
    (∃ fault, declareVariable name tag value t s = .finished (.signal (.failed fault)) t s) ∨
    s.accepts tag value ∧
      declareVariable name tag value t s =
        .finished (.value ()) { t with scope := t.scope.declare name value (some tag) } s := by
  have hrun : declareVariable name tag value t s =
      (ofExcept (s.check name tag value) t s).bind fun _ =>
        modifyScope (·.declare name value (some tag)) := rfl
  rw [hrun]
  obtain ⟨fault, hfault⟩ | ⟨haccepts, hok⟩ := s.check_cases name tag value
  · rw [hfault]
    exact .inl ⟨fault, rfl⟩
  · rw [hok]
    exact .inr ⟨haccepts, rfl⟩

end Script

namespace Evaluator

def declaredTag? (param : Parameter) : Option Tag := param.typeName.map Tag.ofName

/-- Binding a parameter fails, or its tag accepts the argument if there is one. Nothing is checked
if there is none. -/
theorem bindParameter_cases (param : Parameter) (arg : Option Value) (t : Task) (s : Store) :
    (∃ fault, bindParameter param arg t s = .finished (.signal (.failed fault)) t s) ∨
    (∀ value tag, arg = some value → declaredTag? param = some tag → s.accepts tag value) ∧
      bindParameter param arg t s = .finished (.value ())
        { t with scope := t.scope.declare param.name (arg.getD .nil) (declaredTag? param) } s := by
  unfold bindParameter declaredTag?
  cases arg with
  | none => exact .inr ⟨by simp, rfl⟩
  | some value =>
    cases param.typeName with
    | none => exact .inr ⟨by simp, rfl⟩
    | some typeName =>
      have hdeclare := Script.declareVariable_cases param.name (Tag.ofName typeName) value t s
      refine hdeclare.imp_right fun ⟨haccepts, hrun⟩ => ⟨?_, hrun⟩
      intro _ _ hvalue htag
      cases hvalue
      cases htag
      exact haccepts

/-- An element that is stored in a variable leaves a container of the same kind there; nil has
become a container even if this fails. -/
theorem placeInVariable_cases (name : String) (key : Option Value) (value : Value) (t : Task)
    (s : Store) :
    let container := ((t.scope.get? name).getD .nil).prepared key
    let t₁ : Task := { t with scope := t.scope.set name container }
    (∃ fault, placeInVariable name key value t s = .finished (.signal (.failed fault)) t₁ s) ∨
    (∃ s', s'.settings = s.settings ∧
      placeInVariable name key value t s = .finished (.value ()) t₁ s') ∨
    ∃ changed, changed.kind = (((t₁.scope.get? name).getD .nil).prepared key).kind ∧
      placeInVariable name key value t s =
        .finished (.value ()) { t₁ with scope := t₁.scope.set name changed } s := by
  intro container t₁
  -- what happens once the container is prepared and the element has been placed in it
  obtain ⟨next, hrun, hcontainer, hfield⟩ : ∃ next : Value.Placement → Script Unit,
      placeInVariable name key value t s =
        (Script.ofExcept (container.place key value) t₁ s).bind next ∧
      (∀ changed, next (.container changed) = Script.modifyScope (·.set name changed)) ∧
      ∀ ref field, next (.field ref field) = Script.modifyStore (·.setField ref field value) :=
    ⟨_, rfl, fun _ => rfl, fun _ _ => rfl⟩
  rw [hrun]
  cases hplace : container.place key value with
  | error fault => exact .inl ⟨fault, rfl⟩
  | ok placed =>
    cases placed with
    | field ref field =>
      refine .inr (.inl ⟨s.setField ref field value, rfl, ?_⟩)
      exact congrFun (congrFun (hfield ref field) t₁) s
    | container changed =>
      refine .inr (.inr ⟨changed, ?_, congrFun (congrFun (hcontainer changed) t₁) s⟩)
      rw [Scope.get?_set_self, Option.getD_some, Value.prepared_prepared]
      exact Value.kind_of_place hplace

end Evaluator

/-! ## Changes as runs

What a script that changes variables does is decided by a check. The checks depend on the store and
on the tags in sight, but on nothing else of the task.
-/

def Run.checked (check : Except Fault Unit) (f : Task → Task) (t : Task) (s : Store) : Run Unit :=
  match check with
  | .ok () => .finished (.value ()) (f t) s
  | .error fault => .finished (.signal (.failed fault)) t s

def Task.declare (name : String) (value : Value) (tag : Option Tag) (t : Task) : Task :=
  { t with scope := t.scope.declare name value tag }

def Task.set (name : String) (value : Value) (t : Task) : Task :=
  { t with scope := t.scope.set name value }

namespace Script

/-- An assignment is a check of the declared type, if there is one, and then a change. -/
theorem assignVariable_eq (name : String) (value : Value) (t : Task) (s : Store) :
    assignVariable name value t s =
      Run.checked ((t.scope.tag? name).elim (.ok ()) (s.check name · value)) (·.set name value)
        t s := by
  simp only [assignVariable, scope_bind_apply]
  cases t.scope.tag? name with
  | none => rfl
  | some tag =>
    change (ofExcept (s.check name tag value) t s).bind _ = _
    rw [Option.elim_some]
    cases s.check name tag value <;> rfl

theorem declareVariable_eq (name : String) (tag : Tag) (value : Value) (t : Task) (s : Store) :
    declareVariable name tag value t s =
      Run.checked (s.check name tag value) (·.declare name value (some tag)) t s := by
  change (ofExcept (s.check name tag value) t s).bind _ = _
  cases s.check name tag value <;> rfl

end Script

namespace Evaluator

def checkArgument (s : Store) (param : Parameter) (arg : Option Value) : Except Fault Unit :=
  match arg, declaredTag? param with
  | some value, some tag => s.check param.name tag value
  | _, _ => .ok ()

/-- A parameter is bound after a check of its argument, which may be missing. -/
theorem bindParameter_eq (param : Parameter) (arg : Option Value) (t : Task) (s : Store) :
    bindParameter param arg t s =
      Run.checked (checkArgument s param arg)
        (·.declare param.name (arg.getD .nil) (declaredTag? param)) t s := by
  unfold bindParameter checkArgument declaredTag?
  cases arg with
  | none => rfl
  | some value =>
    cases param.typeName with
    | none => rfl
    | some typeName => exact Script.declareVariable_eq ..

/-- Putting an element into a variable makes a container of it first. -/
theorem placeInVariable_eq (name : String) (key : Option Value) (value : Value) (t : Task)
    (s : Store) :
    let container := ((t.scope.get? name).getD .nil).prepared key
    placeInVariable name key value t s =
      match container.place key value with
      | .error fault => .finished (.signal (.failed fault)) (t.set name container) s
      | .ok (.container changed) =>
        .finished (.value ()) ((t.set name container).set name changed) s
      | .ok (.field ref field) =>
        .finished (.value ()) (t.set name container) (s.setField ref field value) := by
  intro container
  change (Script.ofExcept (container.place key value) (t.set name container) s).bind _ = _
  cases container.place key value with
  | error fault => rfl
  | ok placed => cases placed <;> rfl

/-- Storing an element in a name that is not bound assigns nil to the name first. -/
theorem storeInVariable_eq (name : String) (key : Option Value) (value : Value) (t : Task)
    (s : Store) :
    storeInVariable name key value t s =
      if t.scope.contains name then placeInVariable name key value t s
      else (Script.assignVariable name .nil t s).bind fun _ => placeInVariable name key value := by
  change (if t.scope.contains name then placeInVariable name key value
    else (Script.assignVariable name .nil >>= fun _ => placeInVariable name key value)) t s = _
  split <;> rfl

end Evaluator

end RouteScript
