import RouteScript.Proofs.Eval.PathReads
import RouteScript.Proofs.Scope.Bindings

/-!
# Writing along literal paths

What an assignment to a path with literal indices does to the variables. The element of a variable
is put into the variable itself: nil becomes a container there before the element is placed, and the
tag of the variable is not asked. All other assignments inside containers change copies first, and
assign the outermost one to the variable as a whole.
-/

namespace RouteScript

open Evaluator

variable {host : HostHandler} {n : Nat} {t t' : Task} {s s' : Store} {v : Value}

/-- Of two assignments to a name the later one counts. -/
theorem Task.set_set (name : String) (value later : Value) (t : Task) :
    (t.set name value).set name later = t.set name later := by
  simp [Task.set, Scope.set_set]

/-! ## Steps -/

theorem Value.eq_of_toNatClampNeg_eq {i j : Int64} (hi : 0 ≤ i) (hj : 0 ≤ j)
    (h : i.toNatClampNeg = j.toNatClampNeg) : i = j := by
  rw [Int64.le_iff_toInt_le, Int64.toInt_zero] at hi hj
  rw [← Int64.toInt_inj]
  have hnat : i.toInt.toNat = j.toInt.toNat := h
  omega

/-- Only objects have fields. -/
theorem Value.eq_object_of_place {c : Value} {key : Option Value} {ref : ObjectRef} {field : String}
    (h : (c.prepared key).place key v = .ok (.field ref field)) : c = .object ref := by
  have hobject {c : Value} (h : c.place key v = .ok (.field ref field)) : c = .object ref := by
    unfold place at h
    split at h
    case h_6 => cases h; rfl
    all_goals (try split at h) <;> (try split at h) <;> cases h
  have hprepared := hobject h
  cases c with
  | nil => rcases key with _ | _ | _ <;> cases hprepared
  | _ => exact hprepared

namespace Evaluator

/-- A literal key evaluates to itself and changes nothing. -/
theorem rests_key {key : Option Expr} (h : ∀ e ∈ key, e.literalValue?.isSome) :
    Rests (fun n => key.mapM (withLevels host n).expr t s) (.value (key.bind Expr.literalValue?))
      t s := by
  cases key with
  | none => exact .of_eq fun _ => rfl
  | some e =>
    obtain ⟨k, hk⟩ := Option.isSome_iff_exists.mp (h e rfl)
    have hread : e.ReadsAs host t s (.ok k) := Expr.readsAs_literal hk
    simp only [Option.bind_some, hk]
    exact Rests.bind hread (.of_eq fun _ => rfl)

/-- An element that is put into a container ends in an assignment or in a field of an object. -/
theorem yields_putElement {assign : Value → Script Unit} {key : Option Value} {c : Value}
    (h : (putElement assign key v c t s).Yields (.value ()) t' s') :
    (∃ changed, changedElement? key v c = some changed ∧
        (assign changed t s).Yields (.value ()) t' s') ∨
      ∃ ref field, c = .object ref ∧ t' = t ∧ s' = s.setField ref field v := by
  unfold putElement at h
  unfold changedElement?
  cases hplace : (c.prepared key).place key v with
  | error fault =>
    rw [hplace] at h
    cases h
  | ok placed =>
    rw [hplace] at h
    cases placed with
    | container changed => exact .inl ⟨changed, rfl, h⟩
    | field ref field =>
      obtain ⟨-, rfl, rfl⟩ := Run.yields_finished_iff.mp h
      exact .inr ⟨ref, field, Value.eq_object_of_place hplace, rfl, rfl⟩

/-- Writing a member ends in one of two ways: the changed container is assigned, or a field of an
object is set. -/
theorem yields_putMember {assign : Value → Script Unit} {property : String} {access : Access}
    {c : Value} (h : (putMember assign property access v c t s).Yields (.value ()) t' s') :
    (∃ changed, changedMember? property access v c = some changed ∧
        (assign changed t s).Yields (.value ()) t' s') ∨
      ∃ ref, c = .object ref ∧ t' = t ∧ s' = s.setField ref property v := by
  by_cases haccess : access = .static
  · cases c with
    | object ref =>
      obtain ⟨-, rfl, rfl⟩ := Run.yields_finished_iff.mp h
      exact .inr ⟨ref, rfl, rfl, rfl⟩
    | _ =>
      simp only [putMember, if_pos haccess] at h
      cases h
  · cases c with
    | object ref =>
      obtain ⟨-, rfl, rfl⟩ := Run.yields_finished_iff.mp h
      exact .inr ⟨ref, rfl, rfl, rfl⟩
    | map | nil =>
      simp only [putMember, if_neg haccess] at h
      exact .inl ⟨_, by simp [changedMember?, haccess], h⟩
    | _ => cases h

/-- Putting an element into a variable fails, changes the container there, or changes an object. -/
theorem placeInVariable_outcomes (word : String) (key : Option Value) (v : Value) (t : Task)
    (s : Store) :
    let c := (t.scope.get? word).getD .nil
    (∃ fault, (c.prepared key).place key v = .error fault ∧
      placeInVariable word key v t s =
        .finished (.signal (.failed fault)) (t.set word (c.prepared key)) s) ∨
    (∃ changed, changedElement? key v c = some changed ∧
      placeInVariable word key v t s = .finished (.value ()) (t.set word changed) s) ∨
    ∃ ref field, c = .object ref ∧
      placeInVariable word key v t s =
        .finished (.value ()) (t.set word c) (s.setField ref field v) := by
  intro c
  rw [placeInVariable_eq]
  unfold changedElement?
  cases hplace : (c.prepared key).place key v with
  | error fault => exact .inl ⟨fault, rfl, rfl⟩
  | ok placed =>
    cases placed with
    | container changed => exact .inr (.inl ⟨changed, rfl, by simp only [Task.set_set]⟩)
    | field ref field =>
      have hobject := Value.eq_object_of_place hplace
      have hprepared : c.prepared key = c := by
        rw [hobject]
        rfl
      exact .inr (.inr ⟨ref, field, hobject, by rw [hprepared]⟩)

/-- Storing an element in a variable that is not bound fails if its tag does not accept nil. -/
theorem storeInVariable_cases (word : String) (key : Option Value) (v : Value) (t : Task)
    (s : Store) :
    (t.scope.get? word = none ∧ ∃ tag fault, t.scope.tag? word = some tag ∧ ¬ s.accepts tag .nil ∧
      storeInVariable word key v t s = .finished (.signal (.failed fault)) t s) ∨
    (t.scope.get? word = none → ∀ tag, t.scope.tag? word = some tag → s.accepts tag .nil) ∧
      storeInVariable word key v t s = placeInVariable word key v t s := by
  rw [storeInVariable_eq]
  cases hget : t.scope.get? word with
  | some value => exact .inr ⟨by simp, by simp [Scope.contains, hget]⟩
  | none =>
    simp only [Scope.contains, hget, Option.isSome_none, Bool.false_eq_true, if_false]
    -- nil is what a variable that is not bound counts as, so binding it first makes no difference
    have hplace : placeInVariable word key v (t.set word .nil) s =
        placeInVariable word key v t s := by
      have hnil : (t.set word .nil).scope.get? word = some .nil := Scope.get?_set_self ..
      simp only [placeInVariable_eq, hnil, hget, Option.getD_some, Option.getD_none, Task.set_set]
    rw [Script.assignVariable_eq]
    cases htag : t.scope.tag? word with
    | none => exact .inr ⟨by simp, hplace⟩
    | some tag =>
      by_cases haccepts : s.accepts tag .nil
      · simp only [Option.elim_some, Store.check, if_pos haccepts]
        refine .inr ⟨fun _ tag' htag' => ?_, hplace⟩
        cases htag'
        exact haccepts
      · simp only [Option.elim_some, Store.check, if_neg haccepts]
        exact .inl ⟨trivial, tag, _, rfl, haccepts, rfl⟩

/-- An assignment to an element succeeds only if its container can be read without a change. -/
theorem yields_assign_index {path : Path} (hpath : path.IsLiteral) (hne : ∀ word, path ≠ .name word)
    {key : Option Expr} (hkey : ∀ e ∈ key, e.literalValue?.isSome)
    (h : ((withLevels host n).assign (path.index key).expr v t s).Yields (.value ()) t' s') :
    ∃ c, path.expr.ReadsAs host t s (.ok c) ∧
      (putElement ((withLevels host n).assign path.expr) (key.bind Expr.literalValue?) v c t
        s).Yields (.value ()) t' s' := by
  rw [Path.expr, assign_index hne, Script.bind_apply] at h
  obtain ⟨k, t₁, s₁, hk, hread⟩ := h.of_bind
  obtain ⟨hvalue, rfl, rfl⟩ := (rests_key hkey).of_yields hk
  obtain ⟨c, t₂, s₂, hc, hput⟩ := Run.Yields.of_bind hread
  cases hvalue
  have hplain : path.IsPlain host t₁ s₁ := hpath.isPlain
  obtain ⟨x, hx⟩ | hmethod := hplain
  · obtain ⟨rfl, rfl, rfl⟩ := hx.of_yields hc
    exact ⟨c, hx, hput⟩
  · -- nothing can be put into a method
    cases c with
    | method decl ref => cases hput
    | _ => cases (hmethod n).of_yields hc

/-- Writing to a member reads the path up to it first. -/
theorem yields_assign_member {path : Path} (hpath : path.IsLiteral) {property : String}
    {access : Access}
    (h : ((withLevels host n).assign (path.member property access).expr v t s).Yields (.value ())
      t' s') :
    ∃ c, path.expr.ReadsAs host t s (.ok c) ∧
      (putMember ((withLevels host n).assign path.expr) property access v c t s).Yields
        (.value ()) t' s' := by
  rw [Path.expr, assign_member, Script.bind_apply] at h
  obtain ⟨c, t₁, s₁, hc, hput⟩ := h.of_bind
  have hplain : path.IsPlain host t s := hpath.isPlain
  obtain ⟨x, hx⟩ | hmethod := hplain
  · obtain ⟨rfl, rfl, rfl⟩ := hx.of_yields hc
    exact ⟨c, hx, hput⟩
  · cases c with
    | method decl ref => cases hput
    | _ => cases (hmethod n).of_yields hc

/-- Storing an element in a variable succeeds if the container there changes, or an object. -/
theorem yields_storeInVariable {word : String} {key : Option Value}
    (h : (storeInVariable word key v t s).Yields (.value ()) t' s') :
    (t.scope.get? word = none → ∀ tag, t.scope.tag? word = some tag → s.accepts tag .nil) ∧
    ((∃ changed, changedElement? key v ((t.scope.get? word).getD .nil) = some changed ∧
        t' = t.set word changed ∧ s' = s) ∨
      ∃ ref field, (t.scope.get? word).getD .nil = .object ref ∧
        t' = t.set word ((t.scope.get? word).getD .nil) ∧ s' = s.setField ref field v) := by
  obtain ⟨-, tag, fault, -, -, hstored⟩ | ⟨haccepts, hstored⟩ :=
    storeInVariable_cases word key v t s
  · rw [hstored] at h
    cases h
  · refine ⟨haccepts, ?_⟩
    rw [hstored] at h
    obtain ⟨fault, -, hplaced⟩ | ⟨changed, hchanged, hplaced⟩ | ⟨ref, field, hc, hplaced⟩ :=
      placeInVariable_outcomes word key v t s
    · rw [hplaced] at h
      cases h
    · rw [hplaced] at h
      exact .inl ⟨changed, hchanged, (Run.yields_finished_iff.mp h).2⟩
    · rw [hplaced] at h
      exact .inr ⟨ref, field, hc, (Run.yields_finished_iff.mp h).2⟩

/-- An assignment to an element of a variable puts it into the variable. -/
theorem yields_assign_variable {word : String} {key : Option Expr}
    (hkey : ∀ e ∈ key, e.literalValue?.isSome) {o : Outcome Unit} (ho : o ≠ .starved)
    (h : ((withLevels host n).assign (.index (.name word) key) v t s).Yields o t' s') :
    (storeInVariable word (key.bind Expr.literalValue?) v t s).Yields o t' s' := by
  change ((key.mapM (withLevels host n).expr t s).bind fun key => storeInVariable word key v).Yields
    o t' s' at h
  have hrests : Rests (fun n => key.mapM (withLevels host n).expr t s) _ t s := rests_key hkey
  obtain hn | hn := hrests.before n
  · rw [hn] at h
    exact h
  · rw [hn] at h
    exact absurd (Run.yields_finished_iff.mp h).1 ho

end Evaluator

end RouteScript
