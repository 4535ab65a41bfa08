import RouteScript.Proofs.Eval.Targets

/-!
# Reading paths

What the evaluation of a path can come to. A path whose indices are literals is read without any
change, unless it takes a member of a class: then an object is made, and nothing but a method of it
can be read.
-/

namespace RouteScript

open Evaluator

/-! ## Ends of runs -/

namespace Run

variable {α β : Type}

/-- The run may end with an outcome, depending on what it gets when it waits. -/
inductive Yields (o : Outcome α) (t : Task) (s : Store) : Run α → Prop
  | finished : Yields o t s (.finished o t s)
  | waiting {r : Request} {s₀ : Store} {resume : r.Reply → Store → Run α} (reply : r.Reply)
    (s₁ : Store) (h : Yields o t s (resume reply s₁)) : Yields o t s (.waiting r s₀ resume)

/-- However the run goes on after it has waited, a value that it ends with is in `P`. -/
def Delivers (P : α → Prop) (r : Run α) : Prop := r.Ends fun o _ => ∀ a, o = .value a → P a

theorem yields_finished_iff {o o' : Outcome α} {t t' : Task} {s s' : Store} :
    (finished o t s).Yields o' t' s' ↔ o' = o ∧ t' = t ∧ s' = s := by
  constructor
  · intro h
    cases h
    exact ⟨rfl, rfl, rfl⟩
  · rintro ⟨rfl, rfl, rfl⟩
    exact .finished

/-- What ends with a value has come past a value before. -/
theorem Yields.of_bind {r : Run α} {next : α → Task → Store → Run β} {b : β} {t : Task} {s : Store}
    (h : (r.bind next).Yields (.value b) t s) :
    ∃ a t₁ s₁, r.Yields (.value a) t₁ s₁ ∧ (next a t₁ s₁).Yields (.value b) t s := by
  induction r with
  | finished o t₁ s₁ =>
    cases o with
    | value a => exact ⟨a, t₁, s₁, .finished, h⟩
    | signal x => cases h
    | starved => cases h
  | waiting r s₀ resume ih =>
    cases h with
    | waiting reply s' h =>
      obtain ⟨a, t₁, s₁, hr, hnext⟩ := ih reply s' h
      exact ⟨a, t₁, s₁, .waiting reply s' hr, hnext⟩

namespace Delivers

variable {P : α → Prop} {Q : β → Prop}

/-- What a run delivers holds of any value it comes to. -/
theorem of_yields {r : Run α} (h : r.Delivers P) {a : α} {t : Task} {s : Store}
    (hr : r.Yields (.value a) t s) : P a := by
  induction hr with
  | finished =>
    cases h with
    | finished h => exact h a rfl
  | waiting reply s₁ _ ih =>
    cases h with
    | waiting h => exact ih (h reply s₁)

theorem anything (r : Run α) : r.Delivers fun _ => True := by
  induction r with
  | finished o t s => exact .finished fun _ _ => trivial
  | waiting r s resume ih => exact .waiting ih

/-- What follows a run delivers, if it does from all values that the run delivers. -/
theorem bind {r : Run α} {next : α → Task → Store → Run β} (h : r.Delivers P)
    (hnext : ∀ a t s, P a → (next a t s).Delivers Q) : (r.bind next).Delivers Q := by
  induction r with
  | finished o t s =>
    cases h with
    | finished h =>
      cases o with
      | value a => exact hnext a t s (h a rfl)
      | signal x => exact .finished (by simp)
      | starved => exact .finished (by simp)
  | waiting r s resume ih =>
    cases h with
    | waiting h => exact .waiting fun reply s => ih reply s (h reply s)

end Delivers

end Run

def Outcome.ofExcept {α : Type} : Except Fault α → Outcome α
  | .ok a => .value a
  | .error fault => .signal (.failed fault)

theorem Outcome.ofExcept_inj {α : Type} {x y : Except Fault α} :
    Outcome.ofExcept x = Outcome.ofExcept y ↔ x = y := by
  cases x <;> cases y <;> simp [ofExcept]

theorem Script.ofExcept_apply {α : Type} (x : Except Fault α) (t : Task) (s : Store) :
    Script.ofExcept x t s = .finished (.ofExcept x) t s := by
  cases x <;> rfl

/-! ## Values that are no data -/

/-- Whether a value is nil or something that is declared or built in, a method included. -/
def Value.isBare : Value → Bool
  | .nil | .classRef _ | .function _ | .method .. | .builtin _ | .stream _ => true
  | _ => false

def Value.isMethod : Value → Bool
  | .method .. => true
  | _ => false

theorem Value.isBare_of_isMethod {v : Value} (h : v.isMethod) : v.isBare := by
  cases v <;> simp_all [isMethod, isBare]

namespace Evaluator

variable {host : HostHandler} {t : Task} {s : Store}

/-- A name whose variable is nil or is not bound has no data for its value. -/
theorem isBare_lookup {word : String} (h : (t.scope.get? word).getD .nil = .nil) :
    (lookup word t s).isBare := by
  unfold lookup
  cases hget : t.scope.get? word with
  | some value =>
    rw [hget, Option.getD_some] at h
    rw [h]
    rfl
  | none =>
    dsimp only
    cases Dict.get? word s.functions with
    | some decl => rfl
    | none =>
      dsimp only
      split
      · rfl
      · split
        · rfl
        · split
          · rfl
          · cases Builtin.ofName? word <;> rfl

/-- An element of something that is no data is nil, if it can be read at all. -/
theorem isBare_element {container : Value} (hcontainer : container.isBare) (key : Value) (t : Task)
    (s : Store) :
    (Script.ofExcept (container.element s.fields key) t s).Delivers (·.isBare) := by
  rw [Script.ofExcept_apply]
  refine .finished fun v hv => ?_
  have helement : container.element s.fields key = .ok v := Outcome.ofExcept_inj.mp hv
  cases container with
  | nil =>
    cases helement
    rfl
  | _ => simp_all [Value.element, Value.isIndexable, Value.isBare]

/-- A member of a class is a method of a new object. -/
theorem readMember_classRef (ev : Evaluator) (className property : String) (t : Task) (s : Store) :
    (ev.readMember (.classRef className) property t s).Delivers (·.isMethod) := by
  refine (Run.Delivers.anything (ev.newObject className t s)).bind fun receiver t₁ s₁ _ => ?_
  simp only [Script.bind_apply, Script.store, Run.bind]
  cases s₁.classes.resolve? className property with
  | some decl => exact .finished (by simp [Value.isMethod])
  | none => exact .finished (by simp)

/-- A member of something that is no data is none either. -/
theorem isBare_readMember (ev : Evaluator) {object : Value} (hobject : object.isBare)
    (property : String) (t : Task) (s : Store) :
    (ev.readMember object property t s).Delivers (·.isBare) := by
  cases object with
  | nil => exact .finished (by simp [Value.isBare])
  | classRef className =>
    refine (ev.readMember_classRef className property t s).mono fun o _ h v hv => ?_
    exact Value.isBare_of_isMethod (h v hv)
  | function | method | builtin | stream => exact .finished (by simp)
  | _ => simp [Value.isBare] at hobject

/-- An element of a bare value is bare. -/
theorem isBare_index (ev : Evaluator) {target : Expr}
    (h : (ev.expr target t s).Delivers (·.isBare)) (key : Expr) :
    (ev.evaluate (.index target (some key)) t s).Delivers (·.isBare) := by
  refine h.bind fun container t₁ s₁ hcontainer => ?_
  refine (Run.Delivers.anything (ev.expr key t₁ s₁)).bind fun k t₂ s₂ _ => ?_
  exact isBare_element hcontainer k t₂ s₂

/-- A member of a bare value is bare. -/
theorem isBare_member (ev : Evaluator) {object : Expr}
    (h : (ev.expr object t s).Delivers (·.isBare)) (property : String) (access : Access) :
    (ev.evaluate (.member object property access) t s).Delivers (·.isBare) :=
  h.bind fun _ _ _ hobject => isBare_readMember ev hobject property _ _

end Evaluator

namespace Path

/-- The variable or the receiver that a path starts with. -/
def root : Path → Path
  | .name word => .name word
  | .this => .this
  | .index path _ => path.root
  | .member path _ _ => path.root

/-- What is no data leads to nothing else, along any path. -/
theorem delivers_isBare {host : HostHandler} {t : Task} {s : Store} {path : Path}
    (h : ∀ n, ((withLevels host n).expr path.root.expr t s).Delivers (·.isBare)) (n : Nat) :
    ((withLevels host n).expr path.expr t s).Delivers (·.isBare) := by
  induction path generalizing n with
  | name word => exact h n
  | this => exact h n
  | index path key ih =>
    cases n with
    | zero => exact .finished (by simp)
    | succ n =>
      cases key with
      | none => exact .finished (by simp)
      | some key => exact isBare_index _ (ih h n) key
  | member path property access ih =>
    cases n with
    | zero => exact .finished (by simp)
    | succ n => exact isBare_member _ (ih h n) property access

end Path

/-! ## Runs that change nothing -/

/-- From some number on, the runs end with an outcome in a given state. Before that they end in the
same way or are given up in the same state. -/
structure Rests {α : Type} (r : Nat → Run α) (o : Outcome α) (t : Task) (s : Store) : Prop where
  halts : ∃ bound, ∀ n, bound ≤ n → r n = .finished o t s
  before : ∀ n, r n = .finished o t s ∨ r n = .finished .starved t s

namespace Rests

variable {α β : Type} {r : Nat → Run α} {o : Outcome α} {t : Task} {s : Store}

theorem of_eq (h : ∀ n, r n = .finished o t s) : Rests r o t s :=
  ⟨⟨0, fun n _ => h n⟩, fun n => .inl (h n)⟩

/-- A run that rests with some levels rests with one more. -/
theorem succ {r' : Nat → Run α} (h : Rests r o t s) (hzero : r' 0 = .finished .starved t s)
    (hsucc : ∀ n, r' (n + 1) = r n) : Rests r' o t s := by
  obtain ⟨⟨bound, hbound⟩, hbefore⟩ := h
  refine ⟨⟨bound + 1, fun n hn => ?_⟩, fun n => ?_⟩
  · obtain ⟨n, rfl⟩ := Nat.exists_eq_add_of_le' (Nat.le_of_add_left_le hn)
    rw [hsucc, hbound n (by omega)]
  · cases n with
    | zero => exact .inr hzero
    | succ n => simpa only [hsucc] using hbefore n

/-- What follows a run that rests starts from the same state, and may rest as well. -/
theorem bind {a : α} {o : Outcome β} {next : Nat → α → Task → Store → Run β}
    (h : Rests r (.value a) t s) (hnext : Rests (fun n => next n a t s) o t s) :
    Rests (fun n => (r n).bind (next n)) o t s := by
  obtain ⟨⟨bound, hbound⟩, hbefore⟩ := h
  obtain ⟨⟨bound', hbound'⟩, hbefore'⟩ := hnext
  refine ⟨⟨max bound bound', fun n hn => ?_⟩, fun n => ?_⟩
  · rw [hbound n (by omega)]
    exact hbound' n (by omega)
  · obtain hr | hr := hbefore n
    · rw [hr]
      exact hbefore' n
    · rw [hr]
      exact .inr rfl

theorem bind_signal {x : Signal} {next : Nat → α → Task → Store → Run β}
    (h : Rests r (.signal x) t s) : Rests (fun n => (r n).bind (next n)) (.signal x) t s := by
  obtain ⟨⟨bound, hbound⟩, hbefore⟩ := h
  refine ⟨⟨bound, fun n hn => ?_⟩, fun n => ?_⟩
  · rw [hbound n hn]
    rfl
  · obtain hr | hr := hbefore n
    · rw [hr]
      exact .inl rfl
    · rw [hr]
      exact .inr rfl

/-- A run rests with one outcome only. -/
theorem unique {o' : Outcome α} (h : Rests r o t s) (h' : Rests r o' t s) : o = o' := by
  obtain ⟨⟨bound, hbound⟩, -⟩ := h
  obtain ⟨⟨bound', hbound'⟩, -⟩ := h'
  have heq := (hbound _ (Nat.le_max_left bound bound')).symm.trans (hbound' _ (Nat.le_max_right ..))
  injection heq

/-- A value that one of the runs ends with is the one that they all come to. -/
theorem of_yields (h : Rests r o t s) {n : Nat} {a : α} {t' : Task} {s' : Store}
    (hr : (r n).Yields (.value a) t' s') : o = .value a ∧ t' = t ∧ s' = s := by
  obtain hn | hn := h.before n
  · rw [hn, Run.yields_finished_iff] at hr
    exact ⟨hr.1.symm, hr.2⟩
  · rw [hn, Run.yields_finished_iff] at hr
    cases hr.1

end Rests

/-! ## Literals -/

namespace Expr

/-- The value that an expression is written as. Numbers may have a sign. -/
def literalValue? : Expr → Option Value
  | .int n => some (.int n)
  | .float x => some (.float x)
  | .text s => some (.text s)
  | .bool b => some (.bool b)
  | .nil => some .nil
  | .unary .negate (.int n) => some (.int (-n))
  | .unary .negate (.float x) => some (.float (-x))
  | _ => none

end Expr

namespace Expr

/-- With enough levels the expression is evaluated to a value or a fault, and nothing changes. -/
def ReadsAs (host : HostHandler) (t : Task) (s : Store) (e : Expr) (x : Except Fault Value) :
    Prop :=
  Rests (fun n => (withLevels host n).expr e t s) (.ofExcept x) t s

variable {host : HostHandler} {t : Task} {s : Store} {e : Expr} {x y : Except Fault Value}

theorem ReadsAs.unique (hx : e.ReadsAs host t s x) (hy : e.ReadsAs host t s y) : x = y :=
  Outcome.ofExcept_inj.mp (Rests.unique hx hy)

/-- A path that reads as something yields nothing else, with any number of levels. -/
theorem ReadsAs.of_yields (h : e.ReadsAs host t s x) {n : Nat} {v : Value} {t' : Task} {s' : Store}
    (hrun : ((withLevels host n).expr e t s).Yields (.value v) t' s') :
    x = .ok v ∧ t' = t ∧ s' = s := by
  obtain ⟨hx, ht, hs⟩ := Rests.of_yields h hrun
  have hvalue : Outcome.ofExcept x = .ofExcept (.ok v) := hx
  exact ⟨Outcome.ofExcept_inj.mp hvalue, ht, hs⟩

/-- An expression is evaluated by its rule. -/
theorem readsAs_of_evaluate
    (h : Rests (fun n => (withLevels host n).evaluate e t s) (.ofExcept x) t s) :
    e.ReadsAs host t s x :=
  Rests.succ h rfl fun _ => rfl

theorem readsAs_literal {v : Value} (h : e.literalValue? = some v) :
    e.ReadsAs host t s (.ok v) := by
  have hplain {e : Expr} {v : Value} (h : ∀ ev : Evaluator, ev.evaluate e = pure v) :
      e.ReadsAs host t s (.ok v) :=
    readsAs_of_evaluate (.of_eq fun n => by rw [h]; rfl)
  unfold literalValue? at h
  split at h <;> cases h
  · exact hplain fun _ => rfl
  · exact hplain fun _ => rfl
  · exact hplain fun _ => rfl
  · exact hplain fun _ => rfl
  · exact hplain fun _ => rfl
  · exact readsAs_of_evaluate (Rests.bind (hplain (e := .int _) fun _ => rfl) (.of_eq fun _ => rfl))
  · exact readsAs_of_evaluate
      (Rests.bind (hplain (e := .float _) fun _ => rfl) (.of_eq fun _ => rfl))

/-- A name reads as what it stands for, and reading it changes nothing. -/
theorem readsAs_name (word : String) :
    (Expr.name word).ReadsAs host t s (.ok (lookup word t s)) :=
  readsAs_of_evaluate (.of_eq fun _ => rfl)

theorem readsAs_this : Expr.this.ReadsAs host t s (.ok (t.scope.this.getD .nil)) :=
  readsAs_of_evaluate (.of_eq fun _ => rfl)

end Expr

/-! ## Selectors -/

structure Literal where
  expr : Expr
  value : Value
  eq : expr.literalValue? = some value

/-- A literal as an index, or a member. -/
inductive Selector where
  | index (key : Literal)
  | member (property : String) (access : Access)

def Value.member (s : Store) (property : String) : Value → Except Fault Value
  | .object ref => .ok <| (Dict.get? property (s.fields ref)).getD <|
    (s.classes.resolve? ref.className property).elim .nil fun decl => .method decl ref
  | .map entries => .ok ((Dict.get? property entries).getD .nil)
  | .nil => .ok .nil
  | other => .error (.invalid (.readMember property other.kind))

/-- Reading a member is a look at the store, except for a class, where an object is made. -/
theorem Evaluator.readMember_apply (ev : Evaluator) {c : Value}
    (h : ∀ className, c ≠ .classRef className) (property : String) (t : Task) (s : Store) :
    ev.readMember c property t s = .finished (.ofExcept (c.member s property)) t s := by
  cases c with
  | classRef className => exact absurd rfl (h className)
  | object ref =>
    simp only [readMember, Script.bind_apply, Script.store, Run.bind, Value.member]
    cases Dict.get? property (s.fields ref) <;> rfl
  | _ => rfl

namespace Selector

/-- The value that a selector selects by. -/
def key : Selector → Value
  | .index key => key.value
  | .member property _ => .text property

/-- What a selector reads from a value that is not a class. -/
def read (s : Store) (c : Value) : Selector → Except Fault Value
  | .index key => c.element s.fields key.value
  | .member property _ => c.member s property

/-- Whether a selector takes a member of a class. -/
def isOfClass (c : Value) : Selector → Prop
  | .index _ => False
  | .member .. => ∃ className, c = .classRef className

end Selector

namespace Path

variable {host : HostHandler} {t : Task} {s : Store} {path : Path}

def select (path : Path) : Selector → Path
  | .index key => .index path (some key.expr)
  | .member property access => .member path property access

def via (path : Path) (selectors : List Selector) : Path := selectors.foldl select path

/-- What a path with one selector more is read as. -/
theorem readsAs_select {c : Value} (h : path.expr.ReadsAs host t s (.ok c)) {σ : Selector}
    (hclass : ¬ σ.isOfClass c) : (path.select σ).expr.ReadsAs host t s (σ.read s c) := by
  cases σ with
  | index key =>
    have hkey : key.expr.ReadsAs host t s (.ok key.value) := Expr.readsAs_literal key.eq
    refine Expr.readsAs_of_evaluate (Rests.bind h (Rests.bind hkey (.of_eq fun n => ?_)))
    exact Script.ofExcept_apply _ t s
  | member property access =>
    have hne : ∀ className, c ≠ .classRef className := fun className hc => hclass ⟨className, hc⟩
    exact Expr.readsAs_of_evaluate
      (Rests.bind h (.of_eq fun n => readMember_apply _ hne property t s))

/-- A fault on the way is the fault of the whole path. -/
theorem readsAs_select_error {fault : Fault} (h : path.expr.ReadsAs host t s (.error fault))
    (σ : Selector) : (path.select σ).expr.ReadsAs host t s (.error fault) := by
  cases σ with
  | index key => exact Expr.readsAs_of_evaluate (Rests.bind_signal h)
  | member property access => exact Expr.readsAs_of_evaluate (Rests.bind_signal h)

/-! ## Literal paths -/

/-- All indices of the path are literals, or places for a new element. -/
def IsLiteral : Path → Prop
  | .name _ | .this => True
  | .index path key => path.IsLiteral ∧ ∀ e ∈ key, e.literalValue?.isSome
  | .member path _ _ => path.IsLiteral

theorem isLiteral_select {σ : Selector} (h : path.IsLiteral) : (path.select σ).IsLiteral := by
  cases σ with
  | index key => exact ⟨h, by simp [key.eq]⟩
  | member property access => exact h

theorem isLiteral_via (h : path.IsLiteral) (selectors : List Selector) :
    (path.via selectors).IsLiteral := by
  induction selectors generalizing path with
  | nil => exact h
  | cons σ rest ih => exact ih (isLiteral_select h)

/-- The path is read without a change, or nothing but a method can be read. -/
def IsPlain (host : HostHandler) (t : Task) (s : Store) (path : Path) : Prop :=
  (∃ x, path.expr.ReadsAs host t s x) ∨
    ∀ n, ((withLevels host n).expr path.expr t s).Delivers (·.isMethod)

/-- A member of a class is a method. -/
theorem delivers_isMethod_of_class {className property : String} (access : Access)
    (h : path.expr.ReadsAs host t s (.ok (.classRef className))) (n : Nat) :
    ((withLevels host n).expr (path.member property access).expr t s).Delivers (·.isMethod) := by
  cases n with
  | zero => exact .finished (by simp)
  | succ n =>
    change (((withLevels host n).expr path.expr t s).bind _).Delivers _
    obtain hn | hn := Rests.before h n
    · rw [hn]
      exact readMember_classRef _ className property t s
    · rw [hn]
      exact .finished (by simp)

/-- Nothing can be read from a method. -/
theorem delivers_isMethod_select {σ : Selector}
    (h : ∀ n, ((withLevels host n).expr path.expr t s).Delivers (·.isMethod)) (n : Nat) :
    ((withLevels host n).expr (path.select σ).expr t s).Delivers (·.isMethod) := by
  cases n with
  | zero => cases σ <;> exact .finished (by simp)
  | succ n =>
    cases σ with
    | index key =>
      refine (h n).bind fun c t₁ s₁ hc => ?_
      refine (Run.Delivers.anything _).bind fun k t₂ s₂ _ => ?_
      cases c with
      | method => exact .finished (by simp)
      | _ => simp [Value.isMethod] at hc
    | member property access =>
      refine (h n).bind fun c t₁ s₁ hc => ?_
      cases c with
      | method => exact .finished (by simp)
      | _ => simp [Value.isMethod] at hc

/-- A path stays plain with one more step. -/
theorem IsPlain.select (h : path.IsPlain host t s) (σ : Selector) :
    (path.select σ).IsPlain host t s := by
  obtain ⟨x, hx⟩ | hmethod := h
  · cases x with
    | error fault => exact .inl ⟨_, readsAs_select_error hx σ⟩
    | ok c =>
      by_cases hclass : σ.isOfClass c
      · cases σ with
        | index key => exact hclass.elim
        | member property access =>
          obtain ⟨className, rfl⟩ := hclass
          exact .inr (delivers_isMethod_of_class access hx)
      · exact .inl ⟨_, readsAs_select hx hclass⟩
  · exact .inr (delivers_isMethod_select hmethod)

/-- Literal keys evaluate to themselves, so that a literal path is plain. -/
theorem IsLiteral.isPlain (h : path.IsLiteral) : path.IsPlain host t s := by
  induction path with
  | name word => exact .inl ⟨_, Expr.readsAs_name word⟩
  | this => exact .inl ⟨_, Expr.readsAs_this⟩
  | index path key ih =>
    cases key with
    | none => exact .inl ⟨.error _, Expr.readsAs_of_evaluate (.of_eq fun _ => rfl)⟩
    | some e =>
      obtain ⟨v, hv⟩ := Option.isSome_iff_exists.mp (h.2 e rfl)
      exact (ih h.1).select (.index ⟨e, v, hv⟩)
  | member path property access ih => exact (ih h).select (.member property access)

end Path

end RouteScript
