import RouteScript.Proofs.Scope.WellFormed

/-!
# Forked scopes

A forked scope shows the same values and the same receiver. Tags are flattened apart from the
values: a local variable without a tag that hides a tagged global gets the tag of the global, and
this is the only difference.
-/

namespace RouteScript.Scope

/-- The scopes that calls and bindings lead to. -/
inductive Reachable : Scope → Prop
  | empty : Reachable {}
  | push {s : Scope} (this : Option Value) : Reachable s → Reachable (s.push this)
  | pop {s : Scope} : Reachable s → Reachable s.pop
  | set {s : Scope} (name : String) (value : Value) : Reachable s → Reachable (s.set name value)
  | declare {s : Scope} (name : String) (value : Value) (tag : Option Tag) :
    Reachable s → Reachable (s.declare name value tag)
  | setGlobal {s : Scope} (name : String) (value : Value) :
    Reachable s → Reachable (s.setGlobal name value)

/-- Whether a variable of the innermost frame without a tag hides a global with a tag. -/
def hidesTag (name : String) (s : Scope) : Bool :=
  Dict.contains name s.innermost.vars && !Dict.contains name s.innermost.tags &&
    Dict.contains name s.globals.tags

variable {s : Scope}

/-- Every scope that a task can come to is well-formed. -/
theorem Reachable.wellFormed (h : s.Reachable) : s.WellFormed := by
  induction h with
  | empty => exact .empty
  | push this _ ih => exact ih.push this
  | pop _ ih => exact ih.pop
  | set name value _ ih => exact ih.set name value
  | declare name value tag _ ih => exact ih.declare name value tag
  | setGlobal name value _ ih => exact ih.setGlobal name value

/-! ## What a fork shows -/

@[simp] theorem innermost_fork (s : Scope) : s.fork.innermost = s.visible := rfl

@[simp] theorem globals_fork (s : Scope) : s.fork.globals = s.visible := rfl

theorem this_fork (s : Scope) : s.fork.this = s.this := rfl

/-- A forked scope reads all names as the original does. -/
theorem WellFormed.get?_fork (h : s.WellFormed) (name : String) :
    s.fork.get? name = s.get? name := by
  rw [get?_eq_or, get?_eq_or, innermost_fork, globals_fork, Option.or_self]
  exact Dict.get?_merge h.innermost.vars name s.globals.vars

/-- A forked scope has the declared type of the innermost frame and, failing that, of the
globals. -/
theorem WellFormed.tag?_fork (h : s.WellFormed) (name : String) :
    s.fork.tag? name =
      (Dict.get? name s.innermost.tags).or (Dict.get? name s.globals.tags) := by
  have howner : s.fork.tag? name = Dict.get? name s.visible.tags := by simp [tag?, Scope.owner]
  rw [howner]
  exact Dict.get?_merge h.innermost.tags name s.globals.tags

theorem WellFormed.tag?_fork_of_hidesTag (h : s.WellFormed) {name : String}
    (hhides : s.hidesTag name) : s.fork.tag? name = Dict.get? name s.globals.tags := by
  rw [h.tag?_fork]
  simp_all [hidesTag, Dict.contains]

/-- The declared type of a name survives a fork unless an untyped variable hid a typed global. -/
theorem WellFormed.tag?_fork_eq_iff (h : s.WellFormed) (name : String) :
    s.fork.tag? name = s.tag? name ↔ ¬ s.hidesTag name := by
  rw [h.tag?_fork, h.tag?_eq, hidesTag]
  by_cases hinner : Dict.contains name s.innermost.vars
  · rw [if_pos hinner, hinner, Bool.true_and]
    cases htag : Dict.get? name s.innermost.tags <;> simp [Dict.contains, htag]
  · have hnone : Dict.get? name s.innermost.tags = none :=
      h.innermost.bound name (by simpa [Dict.contains] using hinner)
    simp [hinner, hnone]

/-- A fork answers for values, bindings and the receiver as the scope does. It answers for the tag
of a name as the scope does exactly if no variable without a tag hides a tagged global of that name;
the variable has the tag of the global then. -/
theorem fork_shows_scope (h : s.Reachable) (name : String) :
    s.fork.get? name = s.get? name ∧ s.fork.contains name = s.contains name ∧
      s.fork.this = s.this ∧ (s.fork.tag? name = s.tag? name ↔ ¬ s.hidesTag name) ∧
      (s.hidesTag name → s.fork.tag? name = Dict.get? name s.globals.tags) := by
  have hwell := h.wellFormed
  refine ⟨hwell.get?_fork name, ?_, this_fork s, hwell.tag?_fork_eq_iff name,
    hwell.tag?_fork_of_hidesTag⟩
  rw [contains, contains, hwell.get?_fork]

/-- A parameter without a type that hides a global number is taken for a number by a fork. -/
theorem fork_shows_scope_hidden :
    let caller := ({} : Scope).declare "x" (.int 1) (some .int)
    let s := (caller.push none).declare "x" (.text "a") none
    s.Reachable ∧ s.tag? "x" = none ∧ s.fork.tag? "x" = some .int ∧
      ¬ s.fork.tag? "x" = s.tag? "x" := by
  intro caller s
  have hreach : s.Reachable := .declare "x" _ none (.push none (.declare "x" _ (some .int) .empty))
  refine ⟨hreach, rfl, (fork_shows_scope hreach "x").2.2.2.2 rfl, fun heq => ?_⟩
  exact (fork_shows_scope hreach "x").2.2.2.1.mp heq rfl

end RouteScript.Scope
