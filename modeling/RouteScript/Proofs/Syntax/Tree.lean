import RouteScript.Syntax.Expression

/-!
# Trees as a whole

Two ways of looking at all the nodes of a program at once: how deep expressions stand inside each
other, and whether every node passes a check of its own.
-/

namespace RouteScript

/-! ## Heights -/

mutual

/-- How deep expressions stand inside an expression. Statements between them add nothing. -/
def Expr.height : Expr → Nat
  | .call callee arguments => max callee.height (Expr.heights arguments) + 1
  | .create _ arguments => Expr.heights arguments + 1
  | .member object _ _ => object.height + 1
  | .index target none => target.height + 1
  | .index target (some key) => max target.height key.height + 1
  | .assign target value => max target.height value.height + 1
  | .choice condition none alternative => max condition.height (Stmt.heights alternative) + 1
  | .choice condition (some consequence) alternative =>
    max condition.height (max (Stmt.heights consequence) (Stmt.heights alternative)) + 1
  | .binary left _ right => max left.height right.height + 1
  | .unary _ operand => operand.height + 1
  | .step operand _ => operand.height + 1
  | .array items => Expr.heights items + 1
  | .map pairs => Expr.pairHeights pairs + 1
  | .block body => Stmt.heights body + 1
  | .function decl => decl.height + 1
  | .isset operands => Expr.heights operands + 1
  | .empty operand => operand.height + 1
  | _ => 0

/-- The largest height of some expressions. -/
def Expr.heights : List Expr → Nat
  | [] => 0
  | e :: rest => max e.height (Expr.heights rest)

def Expr.pairHeights : List (Expr × Expr) → Nat
  | [] => 0
  | (key, value) :: rest => max (max key.height value.height) (Expr.pairHeights rest)

/-- The largest height of the expressions of a statement. -/
def Stmt.height : Stmt → Nat
  | .declare _ _ (some value) => value.height
  | .classDef decl => decl.height
  | .functionDef decl => decl.height
  | .forEach iterable _ _ body => max iterable.height (Stmt.heights body)
  | .whileLoop condition body => max condition.height (Stmt.heights body)
  | .doWhile body condition => max condition.height (Stmt.heights body)
  | .tryCatch body _ handler => max (Stmt.heights body) (Stmt.heights handler)
  | .branch condition consequence none => max condition.height (Stmt.heights consequence)
  | .branch condition consequence (some alternative) =>
    max condition.height (max (Stmt.heights consequence) (Stmt.heights alternative))
  | .select subject cases none => max subject.height (Stmt.caseHeights cases)
  | .select subject cases (some fallback) =>
    max subject.height (max (Stmt.caseHeights cases) (Stmt.heights fallback))
  | .raise value => value.height
  | .returns (some value) => value.height
  | .echo value => value.height
  | .expr value => value.height
  | _ => 0

/-- The largest height of the expressions of a block. -/
def Stmt.heights : List Stmt → Nat
  | [] => 0
  | stmt :: rest => max stmt.height (Stmt.heights rest)

def Stmt.caseHeights : List (Expr × List Stmt) → Nat
  | [] => 0
  | (value, body) :: rest => max (max value.height (Stmt.heights body)) (Stmt.caseHeights rest)

/-- The largest height of the expressions of a function. -/
def FunctionDecl.height : FunctionDecl → Nat
  | ⟨_, _, some body, _⟩ => Stmt.heights body
  | ⟨_, _, none, _⟩ => 0

/-- The largest height of the expressions of some functions. -/
def FunctionDecl.heights : List FunctionDecl → Nat
  | [] => 0
  | decl :: rest => max decl.height (FunctionDecl.heights rest)

/-- The height of the default of a property. -/
def PropertyDecl.height : PropertyDecl → Nat
  | ⟨_, _, some initial⟩ => initial.height
  | ⟨_, _, none⟩ => 0

/-- The largest height of the defaults of some properties. -/
def PropertyDecl.heights : List PropertyDecl → Nat
  | [] => 0
  | decl :: rest => max decl.height (PropertyDecl.heights rest)

/-- The largest height of the expressions of a class. -/
def ClassDecl.height : ClassDecl → Nat
  | ⟨_, _, properties, methods⟩ =>
    max (PropertyDecl.heights properties) (FunctionDecl.heights methods)

end

/-! ## Checks -/

structure NodeCheck where
  expr : Expr → Bool
  stmt : Stmt → Bool

mutual

/-- Whether an expression and all the nodes inside it pass a check. -/
def Expr.passes (c : NodeCheck) : Expr → Bool
  | .call callee arguments =>
    c.expr (.call callee arguments) && callee.passes c && Expr.allPass c arguments
  | .create className arguments =>
    c.expr (.create className arguments) && Expr.allPass c arguments
  | .member object property access => c.expr (.member object property access) && object.passes c
  | .index target none => c.expr (.index target none) && target.passes c
  | .index target (some key) =>
    c.expr (.index target (some key)) && target.passes c && key.passes c
  | .assign target value => c.expr (.assign target value) && target.passes c && value.passes c
  | .choice condition none alternative =>
    c.expr (.choice condition none alternative) && condition.passes c && Stmt.allPass c alternative
  | .choice condition (some consequence) alternative =>
    c.expr (.choice condition (some consequence) alternative) && condition.passes c &&
      Stmt.allPass c consequence && Stmt.allPass c alternative
  | .binary left op right => c.expr (.binary left op right) && left.passes c && right.passes c
  | .unary op operand => c.expr (.unary op operand) && operand.passes c
  | .step operand op => c.expr (.step operand op) && operand.passes c
  | .array items => c.expr (.array items) && Expr.allPass c items
  | .map pairs => c.expr (.map pairs) && Expr.pairsPass c pairs
  | .block body => c.expr (.block body) && Stmt.allPass c body
  | .function decl => c.expr (.function decl) && decl.passes c
  | .isset operands => c.expr (.isset operands) && Expr.allPass c operands
  | .empty operand => c.expr (.empty operand) && operand.passes c
  | e => c.expr e

/-- Whether all nodes of some expressions pass a check. -/
def Expr.allPass (c : NodeCheck) : List Expr → Bool
  | [] => true
  | e :: rest => e.passes c && Expr.allPass c rest

def Expr.pairsPass (c : NodeCheck) : List (Expr × Expr) → Bool
  | [] => true
  | (key, value) :: rest => key.passes c && value.passes c && Expr.pairsPass c rest

/-- Whether a statement and all the nodes inside it pass a check. -/
def Stmt.passes (c : NodeCheck) : Stmt → Bool
  | .declare typeName name (some value) =>
    c.stmt (.declare typeName name (some value)) && value.passes c
  | .classDef decl => c.stmt (.classDef decl) && decl.passes c
  | .functionDef decl => c.stmt (.functionDef decl) && decl.passes c
  | .forEach iterable key value body =>
    c.stmt (.forEach iterable key value body) && iterable.passes c && Stmt.allPass c body
  | .whileLoop condition body =>
    c.stmt (.whileLoop condition body) && condition.passes c && Stmt.allPass c body
  | .doWhile body condition =>
    c.stmt (.doWhile body condition) && Stmt.allPass c body && condition.passes c
  | .tryCatch body caught handler =>
    c.stmt (.tryCatch body caught handler) && Stmt.allPass c body && Stmt.allPass c handler
  | .branch condition consequence none =>
    c.stmt (.branch condition consequence none) && condition.passes c &&
      Stmt.allPass c consequence
  | .branch condition consequence (some alternative) =>
    c.stmt (.branch condition consequence (some alternative)) && condition.passes c &&
      Stmt.allPass c consequence && Stmt.allPass c alternative
  | .select subject cases none =>
    c.stmt (.select subject cases none) && subject.passes c && Stmt.casesPass c cases
  | .select subject cases (some fallback) =>
    c.stmt (.select subject cases (some fallback)) && subject.passes c &&
      Stmt.casesPass c cases && Stmt.allPass c fallback
  | .raise value => c.stmt (.raise value) && value.passes c
  | .returns (some value) => c.stmt (.returns (some value)) && value.passes c
  | .echo value => c.stmt (.echo value) && value.passes c
  | .expr value => c.stmt (.expr value) && value.passes c
  | stmt => c.stmt stmt

/-- Whether all nodes of a block pass a check. -/
def Stmt.allPass (c : NodeCheck) : List Stmt → Bool
  | [] => true
  | stmt :: rest => stmt.passes c && Stmt.allPass c rest

def Stmt.casesPass (c : NodeCheck) : List (Expr × List Stmt) → Bool
  | [] => true
  | (value, body) :: rest => value.passes c && Stmt.allPass c body && Stmt.casesPass c rest

/-- Whether all nodes of a function pass a check. -/
def FunctionDecl.passes (c : NodeCheck) : FunctionDecl → Bool
  | ⟨_, _, some body, _⟩ => Stmt.allPass c body
  | ⟨_, _, none, _⟩ => true

/-- Whether all nodes of some functions pass a check. -/
def FunctionDecl.allPass (c : NodeCheck) : List FunctionDecl → Bool
  | [] => true
  | decl :: rest => decl.passes c && FunctionDecl.allPass c rest

/-- Whether all nodes of the default of a property pass a check. -/
def PropertyDecl.passes (c : NodeCheck) : PropertyDecl → Bool
  | ⟨_, _, some initial⟩ => initial.passes c
  | ⟨_, _, none⟩ => true

/-- Whether all nodes of the defaults of some properties pass a check. -/
def PropertyDecl.allPass (c : NodeCheck) : List PropertyDecl → Bool
  | [] => true
  | decl :: rest => decl.passes c && PropertyDecl.allPass c rest

/-- Whether all nodes of a class pass a check. -/
def ClassDecl.passes (c : NodeCheck) : ClassDecl → Bool
  | ⟨_, _, properties, methods⟩ =>
    PropertyDecl.allPass c properties && FunctionDecl.allPass c methods

end

/-! ## Members of lists -/

section Lists

variable {α : Type} {l : List α} {a : α}

/-- A height that is defined as a maximum bounds all of its members. -/
theorem le_of_mem {f : α → Nat} {g : List α → Nat} (hg : ∀ a l, g (a :: l) = max (f a) (g l))
    (h : a ∈ l) : f a ≤ g l := by
  induction l with
  | nil => simp at h
  | cons b l ih =>
    rw [hg]
    obtain rfl | h := List.mem_cons.mp h
    · omega
    · have := ih h
      omega

/-- A check that is defined as a conjunction is passed if all members pass. -/
theorem pass_iff {f : α → Bool} {g : List α → Bool} (hnil : g [] = true)
    (hg : ∀ a l, g (a :: l) = (f a && g l)) : g l = true ↔ ∀ a ∈ l, f a = true := by
  induction l with
  | nil => simp [hnil]
  | cons a l ih => simp [hg, ih]

end Lists

theorem Expr.height_le_heights {e : Expr} {l : List Expr} (h : e ∈ l) :
    e.height ≤ Expr.heights l := le_of_mem (fun _ _ => rfl) h

theorem Expr.height_le_pairHeights {p : Expr × Expr} {l : List (Expr × Expr)} (h : p ∈ l) :
    max p.1.height p.2.height ≤ Expr.pairHeights l :=
  le_of_mem (f := fun p : Expr × Expr => max p.1.height p.2.height) (fun _ _ => rfl) h

theorem Stmt.height_le_heights {stmt : Stmt} {l : List Stmt} (h : stmt ∈ l) :
    stmt.height ≤ Stmt.heights l := le_of_mem (fun _ _ => rfl) h

theorem Stmt.height_le_caseHeights {c : Expr × List Stmt} {l : List (Expr × List Stmt)}
    (h : c ∈ l) : max c.1.height (Stmt.heights c.2) ≤ Stmt.caseHeights l :=
  le_of_mem (f := fun c : Expr × List Stmt => max c.1.height (Stmt.heights c.2))
    (fun _ _ => rfl) h

theorem FunctionDecl.height_le_heights {decl : FunctionDecl} {l : List FunctionDecl}
    (h : decl ∈ l) : decl.height ≤ FunctionDecl.heights l := le_of_mem (fun _ _ => rfl) h

theorem PropertyDecl.height_le_heights {decl : PropertyDecl} {l : List PropertyDecl}
    (h : decl ∈ l) : decl.height ≤ PropertyDecl.heights l := le_of_mem (fun _ _ => rfl) h

variable {c : NodeCheck}

theorem Expr.check_of_passes {e : Expr} (h : e.passes c = true) : c.expr e = true := by
  unfold Expr.passes at h
  split at h <;> simp_all only [Bool.and_eq_true]

theorem Stmt.check_of_passes {stmt : Stmt} (h : stmt.passes c = true) : c.stmt stmt = true := by
  unfold Stmt.passes at h
  split at h <;> simp_all only [Bool.and_eq_true]

@[simp] theorem Expr.allPass_eq_true {l : List Expr} :
    Expr.allPass c l = true ↔ ∀ e ∈ l, e.passes c = true := pass_iff rfl fun _ _ => rfl

@[simp] theorem Expr.pairsPass_eq_true {l : List (Expr × Expr)} :
    Expr.pairsPass c l = true ↔ ∀ p ∈ l, (p.1.passes c && p.2.passes c) = true :=
  pass_iff (f := fun p : Expr × Expr => p.1.passes c && p.2.passes c) rfl fun _ _ => rfl

@[simp] theorem Stmt.allPass_eq_true {l : List Stmt} :
    Stmt.allPass c l = true ↔ ∀ stmt ∈ l, stmt.passes c = true := pass_iff rfl fun _ _ => rfl

@[simp] theorem Stmt.casesPass_eq_true {l : List (Expr × List Stmt)} :
    Stmt.casesPass c l = true ↔ ∀ p ∈ l, (p.1.passes c && Stmt.allPass c p.2) = true :=
  pass_iff (f := fun p : Expr × List Stmt => p.1.passes c && Stmt.allPass c p.2) rfl
    fun _ _ => rfl

@[simp] theorem FunctionDecl.allPass_eq_true {l : List FunctionDecl} :
    FunctionDecl.allPass c l = true ↔ ∀ decl ∈ l, decl.passes c = true :=
  pass_iff rfl fun _ _ => rfl

@[simp] theorem PropertyDecl.allPass_eq_true {l : List PropertyDecl} :
    PropertyDecl.allPass c l = true ↔ ∀ decl ∈ l, decl.passes c = true :=
  pass_iff rfl fun _ _ => rfl

end RouteScript
