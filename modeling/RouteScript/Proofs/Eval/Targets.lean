import RouteScript.Proofs.Eval.Halting

/-!
# Targets of assignments

An assignment to a path of indices and members changes the last container on it, and when this is an
array or a map, assigns the changed container to the path without its last part, and so on up to an
object or the variable. For each of these targets the indices on it are evaluated anew. So an index
that stands deep enough in a path is evaluated more than once, and the place that is written is the
place that was read only when it gives the same value each time.
-/

namespace RouteScript

open Evaluator

/-! ## Paths -/

/-- Indices and members over a variable or the receiver. -/
inductive Path where
  | name (word : String)
  | this
  | index (path : Path) (key : Option Expr)
  | member (path : Path) (property : String) (access : Access)

def Path.expr : Path → Expr
  | .name word => .name word
  | .this => .this
  | .index path key => .index path.expr key
  | .member path property access => .member path.expr property access

/-- What is known of the paths and indices of some assignments while they are carried out, and
something that is counted meanwhile. -/
structure Scene where
  host : HostHandler
  /-- The states in which paths and indices have their values. -/
  holds : Task → Store → Prop
  count : Task → Store → Nat
  /-- The value of a path. -/
  value : Path → Value
  /-- The value of an index. -/
  key : Expr → Value
  /-- What one evaluation of an index adds to the count. -/
  weight : Expr → Nat

namespace Evaluator

/-- Put an element into a container, and a container that has changed where it belongs. -/
def putElement (assign : Value → Script Unit) (key : Option Value) (v container : Value) :
    Script Unit := do
  match ← Script.ofExcept ((container.prepared key).place key v) with
  | .container changed => assign changed
  | .field ref field => Script.modifyStore (·.setField ref field v)

/-- Give a member its value, and put a map that has changed where it belongs. -/
def putMember (assign : Value → Script Unit) (property : String) (access : Access)
    (v container : Value) : Script Unit :=
  match container with
  | .object ref => Script.modifyStore (·.setField ref property v)
  | .map entries =>
    if access = .static then Script.fail (.invalid (.writeMember property .map))
    else assign (.map (Dict.insert property v entries))
  | .nil =>
    if access = .static then Script.fail (.invalid (.writeMember property .nil))
    else assign (.map [(property, v)])
  | other => Script.fail (.invalid (.writeMember property other.kind))

def changedElement? (key : Option Value) (v container : Value) : Option Value :=
  match (container.prepared key).place key v with
  | .ok (.container changed) => some changed
  | _ => none

def changedMember? (property : String) (access : Access) (v container : Value) : Option Value :=
  if access = .static then none
  else
    match container with
    | .map entries => some (.map (Dict.insert property v entries))
    | .nil => some (.map [(property, v)])
    | _ => none

/-- A member is written by reading its container and assigning what has changed. -/
theorem assign_member (ev : Evaluator) (path : Path) (property : String) (access : Access)
    (v : Value) :
    ev.assign (.member path.expr property access) v =
      ev.expr path.expr >>= putMember (ev.assign path.expr) property access v := by
  rw [assign]
  rfl

/-- Where the container is not a variable, it is read before it is changed. -/
theorem assign_index {path : Path} (h : ∀ word, path ≠ .name word) (ev : Evaluator)
    (key : Option Expr) (v : Value) :
    ev.assign (.index path.expr key) v = (do
      let key ← key.mapM ev.expr
      ev.expr path.expr >>= putElement (ev.assign path.expr) key v) := by
  cases path with
  | name word => exact absurd rfl (h word)
  | this | index | member => rfl

end Evaluator

/-! ## Scripts that do not wait -/

def Script.IsPrompt {α : Type} (m : Script α) : Prop :=
  ∀ t s, ∃ o t' s', m t s = .finished o t' s'

namespace Script.IsPrompt

variable {α β : Type}

theorem pure (a : α) : IsPrompt (Pure.pure a) := fun t s => ⟨.value a, t, s, rfl⟩

theorem fail (fault : Fault) : IsPrompt (Script.fail fault : Script α) :=
  fun t s => ⟨.signal (.failed fault), t, s, rfl⟩

theorem modifyStore (f : Store → Store) : IsPrompt (Script.modifyStore f) :=
  fun t s => ⟨.value (), t, f s, rfl⟩

/-- Prompt scripts in a row are prompt. -/
theorem bind {m : Script α} {next : α → Script β} (hm : m.IsPrompt)
    (hnext : ∀ a, (next a).IsPrompt) : IsPrompt (m >>= next) := by
  intro t s
  obtain ⟨o, t', s', hrun⟩ := hm t s
  rw [bind_apply, hrun]
  cases o with
  | value a => exact hnext a t' s'
  | signal x => exact ⟨.signal x, t', s', rfl⟩
  | starved => exact ⟨.starved, t', s', rfl⟩

/-- An assignment to a variable evaluates nothing. -/
theorem assignVariable (name : String) (value : Value) :
    IsPrompt (Script.assignVariable name value) := by
  intro t s
  obtain ⟨fault, hrun⟩ | ⟨-, hrun⟩ := assignVariable_cases name value t s
  · exact ⟨_, _, _, hrun⟩
  · exact ⟨_, _, _, hrun⟩

theorem storeInVariable (name : String) (key : Option Value) (value : Value) :
    IsPrompt (Evaluator.storeInVariable name key value) := by
  have hplace : IsPrompt (Evaluator.placeInVariable name key value) := by
    intro t s
    rw [placeInVariable_eq]
    split
    all_goals exact ⟨_, _, _, rfl⟩
  intro t s
  rw [storeInVariable_eq]
  split
  · exact hplace t s
  · exact (assignVariable name .nil).bind (fun _ => hplace) t s

end Script.IsPrompt

/-! ## Evaluations in a scene -/

namespace Scene

variable {α β : Type} (σ : Scene)

/-- From the states of a scene, with enough levels, what is done first evaluates something, which
keeps to the scene and adds to the count, and then does what `last` does. -/
def Leads (f : Evaluator → Script α) (last : Script α) (n : Nat) : Prop :=
  ∀ t s, σ.holds t s → Halts (fun levels => f (.withLevels σ.host levels) t s)
    fun o t'' s'' => ∃ t' s', σ.holds t' s' ∧ σ.count t' s' = σ.count t s + n ∧
      last t' s' = .finished o t'' s''

/-- The expression has a value in the scene, and each evaluation of it adds to the count. -/
def Gives (e : Expr) (v : Value) (n : Nat) : Prop := σ.Leads (·.expr e) (pure v) n

/-- The path can be read, and so can all paths inside it. -/
def Reads : Path → Prop
  | .name word => ∀ t s, σ.holds t s → lookup word t s = σ.value (.name word)
  | .this => ∀ t s, σ.holds t s → t.scope.this.getD .nil = σ.value .this
  | .index _ none => False
  | .index path (some key) =>
    Reads path ∧ σ.Gives key (σ.key key) (σ.weight key) ∧
      ∀ t s, σ.holds t s →
        (σ.value path).element s.fields (σ.key key) = .ok (σ.value (.index path (some key)))
  | .member path property access =>
    Reads path ∧ ∀ ev t s, σ.holds t s → readMember ev (σ.value path) property t s =
      .finished (.value (σ.value (.member path property access))) t s

/-- The last container of the path can be read, and its index has a value. A variable need not be
bound when it gets an element. -/
def Reaches : Path → Prop
  | .name _ | .this => True
  | .index path key =>
    ((∃ word, path = .name word) ∨ σ.Reads path) ∧
      ∀ e ∈ key, σ.Gives e (σ.key e) (σ.weight e)
  | .member path _ _ => σ.Reads path

/-- What an evaluation of all indices of a path adds to the count. -/
def pathWeight : Path → Nat
  | .name _ | .this => 0
  | .index path key => pathWeight path + key.elim 0 σ.weight
  | .member path _ _ => pathWeight path

/-- The assignment to a path whose parts and indices have all been evaluated. -/
def write : Path → Value → Script Unit
  | .name word, v => Script.assignVariable word v
  | .this, _ => Script.fail (.invalid .assignmentTarget)
  | .index (.name word) key, v => storeInVariable word (key.map σ.key) v
  | .index path key, v => putElement (write path) (key.map σ.key) v (σ.value path)
  | .member path property access, v => putMember (write path) property access v (σ.value path)

/-- The paths with a last part that are assigned to one after another. -/
def targets : Path → Value → List Path
  | .name _, _ | .this, _ => []
  | .index (.name word) key, _ => [.index (.name word) key]
  | .index path key, v =>
    .index path key ::
      (changedElement? (key.map σ.key) v (σ.value path)).elim [] (targets path)
  | .member path property access, v =>
    .member path property access ::
      (changedMember? property access v (σ.value path)).elim [] (targets path)

/-- What an assignment to a path adds to the count. -/
def assignmentWeight (path : Path) (v : Value) : Nat :=
  (σ.targets path v).foldr (fun target weight => σ.pathWeight target + weight) 0

variable {σ : Scene}

namespace Leads

variable {f : Evaluator → Script α} {n m : Nat}

theorem prompt {last : Script α} (h : last.IsPrompt) : σ.Leads (fun _ => last) last 0 := by
  intro t s hts
  obtain ⟨o, t', s', hrun⟩ := h t s
  exact .of_eq (fun _ => hrun) ⟨t, s, hts, rfl, hrun⟩

/-- What a sequence adds to the count is the sum of what its parts add. -/
theorem bind {a : α} {g : Evaluator → α → Script β} {last : Script β}
    (h : σ.Leads f (pure a) n) (hg : σ.Leads (g · a) last m) :
    σ.Leads (fun ev => f ev >>= g ev) last (n + m) := by
  intro t s hts
  refine (h t s hts).bind ?_ ?_ ?_
  · rintro a' t₁ s₁ ⟨t', s', hts', hcount, hrun⟩
    cases hrun
    refine (hg t₁ s₁ hts').mono ?_
    rintro o t₂ s₂ ⟨t'', s'', hts'', hcount', hrun'⟩
    exact ⟨t'', s'', hts'', by omega, hrun'⟩
  · rintro x t₁ s₁ ⟨t', s', -, -, hrun⟩
    cases hrun
  · rintro t₁ s₁ ⟨t', s', -, -, hrun⟩
    cases hrun

/-- What follows promptly adds nothing to the count. -/
theorem andThen {last : Script α} {next : α → Script β} (h : σ.Leads f last n)
    (hnext : ∀ a, (next a).IsPrompt) : σ.Leads (fun ev => f ev >>= next) (last >>= next) n := by
  intro t s hts
  refine (h t s hts).bind ?_ ?_ ?_
  · rintro a t₁ s₁ ⟨t', s', hts', hcount, hrun⟩
    obtain ⟨o, t₂, s₂, hrun'⟩ := hnext a t₁ s₁
    refine .of_eq (fun _ => hrun') ⟨t', s', hts', hcount, ?_⟩
    rw [Script.bind_apply, hrun]
    exact hrun'
  · rintro x t₁ s₁ ⟨t', s', hts', hcount, hrun⟩
    refine ⟨t', s', hts', hcount, ?_⟩
    rw [Script.bind_apply, hrun]
    rfl
  · rintro t₁ s₁ ⟨t', s', hts', hcount, hrun⟩
    refine ⟨t', s', hts', hcount, ?_⟩
    rw [Script.bind_apply, hrun]
    rfl

/-- What is read from a state of the scene is known. -/
theorem read {m : Script α} {a : α} (h : ∀ t s, σ.holds t s → m t s = .finished (.value a) t s) :
    σ.Leads (fun _ => m) (pure a) 0 :=
  fun t s hts => .of_eq (fun _ => h t s hts) ⟨t, s, hts, rfl, rfl⟩

/-- An expression is evaluated by its rule. -/
theorem expr {e : Expr} {last : Script Value} (h : σ.Leads (·.evaluate e) last n) :
    σ.Leads (·.expr e) last n :=
  fun t s hts => (h t s hts).succ fun _ => rfl

end Leads

/-! ## Reading -/

/-- Reading a path evaluates each of its indices once. -/
theorem Reads.gives {path : Path} (h : σ.Reads path) :
    σ.Gives path.expr (σ.value path) (σ.pathWeight path) := by
  induction path with
  | name word => exact .expr (.read fun t s hts => by rw [← h t s hts]; rfl)
  | this => exact .expr (.read fun t s hts => by rw [← h t s hts]; rfl)
  | index path key ih =>
    cases key with
    | none => exact h.elim
    | some key =>
      obtain ⟨hpath, hkey, helement⟩ := h
      refine .expr ((ih hpath).bind (hkey.bind (m := 0) (.read fun t s hts => ?_)))
      change (Script.ofExcept ((σ.value path).element s.fields (σ.key key))) t s = _
      rw [helement t s hts]
      rfl
  | member path property access ih =>
    have hread : σ.Leads (fun ev => ev.readMember (σ.value path) property)
        (pure (σ.value (.member path property access))) 0 :=
      fun t s hts => .of_eq (fun _ => h.2 _ t s hts) ⟨t, s, hts, rfl, rfl⟩
    exact .expr ((ih h.1).bind (g := fun ev object => ev.readMember object property) hread)

theorem Reads.reaches {path : Path} (h : σ.Reads path) : σ.Reaches path := by
  cases path with
  | name | this => trivial
  | index path key =>
    cases key with
    | none => exact h.elim
    | some key => exact ⟨.inr h.1, by simpa using h.2.1⟩
  | member path property access => exact h.1

/-! ## Writing -/

/-- A key adds to the count what its expression adds, and a missing key nothing. -/
theorem leads_key {key : Option Expr} (h : ∀ e ∈ key, σ.Gives e (σ.key e) (σ.weight e)) :
    σ.Leads (fun ev => key.mapM ev.expr) (pure (key.map σ.key)) (key.elim 0 σ.weight) := by
  cases key with
  | none => exact .prompt (.pure none)
  | some e => exact (h e rfl).andThen fun v => .pure (some v)

theorem Leads.weight_eq {f : Evaluator → Script α} {last : Script α} {n m : Nat}
    (h : σ.Leads f last n) (hn : n = m) : σ.Leads f last m := hn ▸ h

section Put

variable {e : Expr} {last : Value → Script Unit} {weight : Value → Nat}

/-- Storing an element adds to the count what assigning the changed container adds. -/
theorem leads_putElement (h : ∀ v, σ.Leads (fun ev => ev.assign e v) (last v) (weight v))
    (key : Option Value) (v container : Value) :
    σ.Leads (fun ev => putElement (ev.assign e) key v container)
      (putElement last key v container) ((changedElement? key v container).elim 0 weight) := by
  unfold putElement changedElement?
  cases (container.prepared key).place key v with
  | error fault => exact .prompt (.fail fault)
  | ok placed =>
    cases placed with
    | container changed => exact h changed
    | field ref field => exact .prompt (.modifyStore _)

theorem leads_putMember (h : ∀ v, σ.Leads (fun ev => ev.assign e v) (last v) (weight v))
    (property : String) (access : Access) (v container : Value) :
    σ.Leads (fun ev => putMember (ev.assign e) property access v container)
      (putMember last property access v container)
      ((changedMember? property access v container).elim 0 weight) := by
  by_cases haccess : access = .static
  · cases container with
    | object ref =>
      simp only [putMember, changedMember?, if_pos haccess]
      exact .prompt (.modifyStore _)
    | _ =>
      simp only [putMember, changedMember?, if_pos haccess]
      exact .prompt (.fail _)
  · cases container with
    | map | nil =>
      simp only [putMember, changedMember?, if_neg haccess]
      exact h _
    | object ref =>
      simp only [putMember, changedMember?, if_neg haccess]
      exact .prompt (.modifyStore _)
    | _ =>
      simp only [putMember, changedMember?, if_neg haccess]
      exact .prompt (.fail _)

end Put

/-- An assignment counts the evaluations on the way to the container and those of writing it back.
-/
theorem assignmentWeight_index {path : Path} (h : ∀ word, path ≠ .name word) (key : Option Expr)
    (v : Value) :
    σ.assignmentWeight (.index path key) v = σ.pathWeight (.index path key) +
      (changedElement? (key.map σ.key) v (σ.value path)).elim 0 (σ.assignmentWeight path) := by
  have htargets : σ.targets (.index path key) v = .index path key ::
      (changedElement? (key.map σ.key) v (σ.value path)).elim [] (σ.targets path) := by
    cases path with
    | name word => exact absurd rfl (h word)
    | this | index | member => rfl
  rw [assignmentWeight, htargets]
  cases changedElement? (key.map σ.key) v (σ.value path) <;> rfl

/-- An assignment evaluates the indices of each of its targets, and then writes as if they had been
evaluated once. -/
theorem Reaches.leads {path : Path} (h : σ.Reaches path) (v : Value) :
    σ.Leads (fun ev => ev.assign path.expr v) (σ.write path v) (σ.assignmentWeight path v) := by
  induction path generalizing v with
  | name word => exact .prompt (.assignVariable word v)
  | this => exact .prompt (.fail _)
  | index path key ih =>
    have hkey := leads_key h.2
    by_cases hname : ∃ word, path = .name word
    · obtain ⟨word, rfl⟩ := hname
      have hstore := hkey.bind (g := fun _ key => storeInVariable word key v)
        (.prompt (.storeInVariable word (key.map σ.key) v))
      exact hstore.weight_eq (by simp [assignmentWeight, targets, pathWeight])
    · have hread : σ.Reads path := h.1.resolve_left hname
      have hne : ∀ word, path ≠ .name word := fun word heq => hname ⟨word, heq⟩
      have hput := leads_putElement (ih hread.reaches) (key.map σ.key) v (σ.value path)
      have hall := hkey.bind
        (g := fun ev key => ev.expr path.expr >>= putElement (ev.assign path.expr) key v)
        (hread.gives.bind (g := fun ev => putElement (ev.assign path.expr) (key.map σ.key) v)
          hput)
      have hwrite : σ.write (.index path key) v =
          putElement (σ.write path) (key.map σ.key) v (σ.value path) := by
        cases path with
        | name word => exact absurd rfl (hne word)
        | this | index | member => rfl
      simp only [Path.expr, assign_index hne, hwrite]
      exact hall.weight_eq (by rw [assignmentWeight_index hne, pathWeight]; omega)
  | member path property access ih =>
    have hput := leads_putMember (ih (Reads.reaches h)) property access v (σ.value path)
    have hall := (Reads.gives h).bind
      (g := fun ev => putMember (ev.assign path.expr) property access v) hput
    simp only [Path.expr, assign_member]
    refine hall.weight_eq ?_
    rw [assignmentWeight, targets]
    cases changedMember? property access v (σ.value path) <;> rfl

/-- Let the paths and indices on the way to a target have values that stay the same while they are
evaluated. Then an assignment writes as if all of them had been evaluated once. But it evaluates the
indices of every target that is assigned on the way, from the whole path up to the first part inside
an object or a variable; and a step up or down evaluates those of the whole path once more, to read
it first. -/
theorem assignment_evaluates_all_targets {path : Path} {e : Expr} {v : Value} {n : Nat}
    (hpath : σ.Reaches path) (he : σ.Gives e v n) :
    σ.Leads (·.expr (.assign path.expr e)) (do σ.write path v; return v)
      (n + σ.assignmentWeight path v) ∧
    ∀ op next, σ.Reads path → (σ.value path).stepped op = .ok next →
      σ.Leads (·.expr (.step path.expr op)) (do σ.write path next; return σ.value path)
        (σ.pathWeight path + σ.assignmentWeight path next) := by
  refine ⟨?_, fun op next hread hnext => ?_⟩
  · have hassign := (hpath.leads v).andThen fun _ => .pure v
    exact .expr (he.bind (g := fun ev v => do ev.assign path.expr v; return v) hassign)
  · have hassign := (hpath.leads next).andThen fun _ => .pure (σ.value path)
    have hstep : σ.Leads (fun ev => do
        let next ← Script.ofExcept ((σ.value path).stepped op)
        ev.assign path.expr next
        return σ.value path)
        (do σ.write path next; return σ.value path) (σ.assignmentWeight path next) := by
      rw [hnext]
      exact hassign
    exact .expr (hread.gives.bind
      (g := fun ev (current : Value) => do
        let next ← Script.ofExcept (current.stepped op)
        ev.assign path.expr next
        return current) hstep)

/-- The index `$log[] = 0`, which leaves a trace of each evaluation. -/
def loggedIndex : Expr := .assign (.index (.name "log") none) (.int 0)

/-- A variable `a` with an array in an array, and the length of the array in `log` as the count. -/
def logScene : Scene where
  host := .none
  holds t _ := ∃ log, t.scope =
    ⟨⟨[("a", .array [.array [.int 1]]), ("log", .array log)], [], none⟩, []⟩
  count t _ :=
    match t.scope.get? "log" with
    | some (.array log) => log.length
    | _ => 0
  value
    | .name _ => .array [.array [.int 1]]
    | _ => .array [.int 1]
  key _ := .int 0
  weight
    | .assign .. => 1
    | _ => 0

/-- The inner index of `$a[$log[] = 0][0] = 9` is evaluated twice, for the target itself and for the
array that it changes. -/
theorem assignment_evaluates_all_targets_logged :
    let path : Path := .index (.index (.name "a") (some loggedIndex)) (some (.int 0))
    logScene.Reaches path ∧ logScene.Gives (.int 9) (.int 9) 0 ∧
      logScene.Leads (·.expr (.assign path.expr (.int 9)))
        (do logScene.write path (.int 9); return .int 9) 2 := by
  intro path
  have hint (n : Int64) : logScene.Gives (.int n) (.int n) 0 := .expr (.prompt (.pure _))
  have hlogged : logScene.Gives loggedIndex (.int 0) 1 := by
    refine .expr ((hint 0).bind (m := 1) (g := fun ev v => do
      ev.assign (.index (.name "log") none) v
      return v) ?_)
    rintro ⟨scope, calls, directory⟩ s ⟨log, rfl⟩
    let grown : Scope :=
      ⟨⟨[("a", .array [.array [.int 1]]), ("log", .array (log ++ [.int 0]))], [], none⟩, []⟩
    exact .of_eq (o := .value (.int 0)) (t := ⟨grown, calls, directory⟩) (fun _ => rfl)
      ⟨⟨grown, calls, directory⟩, s, ⟨log ++ [.int 0], rfl⟩, List.length_append, rfl⟩
  have hreaches : logScene.Reaches path := by
    refine ⟨.inr ⟨?_, hlogged, fun _ _ _ => rfl⟩, ?_⟩
    · rintro ⟨scope, calls, directory⟩ s ⟨log, rfl⟩
      rfl
    · rintro e ⟨⟩
      exact hint 0
  exact ⟨hreaches, hint 9, (assignment_evaluates_all_targets hreaches (hint 9)).1⟩

end Scene

end RouteScript
