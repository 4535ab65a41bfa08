import RouteScript.Proofs.Syntax.GrammarProgress
import RouteScript.Proofs.Syntax.Names
import RouteScript.Proofs.Syntax.Results

/-!
# Chains and nesting

The readers count how deep expressions are nested, but an operand that grows by one operator after
another is read in a loop, which counts nothing. So the height of what is read is bounded by the
limit for the nesting together with the length of such chains, and by neither of them alone.
-/

namespace RouteScript

open Token (isWord)

/-! ## Chains -/

/-- The number of steps by which an operand has grown into an expression. -/
def Expr.links : Expr → Nat
  | .call callee _ => callee.links + 1
  | .member object _ _ => object.links + 1
  | .index target _ => target.links + 1
  | .assign target _ => target.links + 1
  | .choice condition _ _ => condition.links + 1
  | .binary left _ _ => left.links + 1
  | .step operand _ => operand.links + 1
  | _ => 0

/-- No operand has grown by more than `m` steps. -/
def chainCheck (m : Nat) : NodeCheck := ⟨fun e => e.links ≤ m, fun _ => true⟩

variable {m b least : Nat} {e first : Expr}

theorem Expr.links_first (h : e.first? = some (first, least)) : e.links = first.links + 1 := by
  cases e <;> cases h <;> rfl

/-- An expression that passes has no chain of more than `m` links. -/
theorem Expr.links_le (h : e.passes (chainCheck m) = true) : e.links ≤ m := by
  simpa [chainCheck] using Expr.check_of_passes h

/-- Heights below this number fit into `b` nested chains of at most `m` links each. -/
def span (m b : Nat) : Nat := (m + 1) * (b + 1)

/-- A further level of nesting makes room for one more chain. -/
theorem span_succ (m b : Nat) : span m (b + 1) = span m b + m + 1 := by
  rw [span, span, Nat.mul_succ (m + 1) (b + 1), Nat.add_assoc]

theorem lt_span (m b : Nat) : m < span m b :=
  Nat.le_mul_of_pos_right (m + 1) (Nat.succ_pos b)

def Expr.Fits (m b : Nat) (e : Expr) : Prop :=
  e.passes (chainCheck m) = true → e.height < span m b

def Stmt.Fits (m b : Nat) (stmt : Stmt) : Prop :=
  stmt.passes (chainCheck m) = true → stmt.height < span m b

def FunctionDecl.Fits (m b : Nat) (decl : FunctionDecl) : Prop :=
  decl.passes (chainCheck m) = true → decl.height < span m b

def PropertyDecl.Fits (m b : Nat) (decl : PropertyDecl) : Prop :=
  decl.passes (chainCheck m) = true → decl.height < span m b

/-- The expression fits into `b` nested chains, with room for the links that its own chain may still
get. -/
def Expr.Chained (m b : Nat) (e : Expr) : Prop :=
  e.passes (chainCheck m) = true → e.height + m < span m b + e.links

theorem Expr.Fits.mono (h : e.Fits m b) : e.Fits m (b + 1) := by
  intro hp
  have hheight := h hp
  have hspan := span_succ m b
  omega

theorem Expr.Chained.fits (h : e.Chained m b) : e.Fits m b := by
  intro hp
  have hheight := h hp
  have hlinks := Expr.links_le hp
  omega

theorem Expr.Chained.mono (h : e.Chained m b) : e.Chained m (b + 1) := by
  intro hp
  have hheight := h hp
  have hspan := span_succ m b
  omega

/-- An operand begins a chain around what stands inside it. -/
theorem Expr.chained_of_height
    (h : e.passes (chainCheck m) = true → e.height ≤ span m b) : e.Chained m (b + 1) := by
  intro hp
  have hheight := h hp
  have hspan := span_succ m b
  omega

/-- An expression without parts fits into any room. -/
theorem Expr.chained_of_height_eq_zero (h : e.height = 0) : e.Chained m (b + 1) :=
  Expr.chained_of_height fun _ => h ▸ Nat.zero_le _

/-- What fits into a room may start a chain in the next larger one. -/
theorem Expr.Fits.chained (h : e.Fits m b) : e.Chained m (b + 1) :=
  Expr.chained_of_height fun hp => Nat.le_of_lt (h hp)

/-- One more link of a chain, with something inside that is in chains of its own. -/
theorem Expr.chained_of_first (hfirst : e.first? = some (first, least))
    (h : first.Chained m (b + 1))
    (hinside : e.passes (chainCheck m) = true →
      ∃ n < span m b, e.height = max first.height n + 1) : e.Chained m (b + 1) := by
  intro hp
  have hheight := h (Expr.passes_first hfirst hp)
  have hlinks := Expr.links_first hfirst
  obtain ⟨n, hn, he⟩ := hinside hp
  have hspan := span_succ m b
  omega

theorem Stmt.Fits.mono {stmt : Stmt} (h : stmt.Fits m b) : stmt.Fits m (b + 1) := by
  intro hp
  have hheight := h hp
  have hspan := span_succ m b
  omega

theorem Stmt.fits_expr_iff : (Stmt.expr e).Fits m b ↔ e.Fits m b := by
  simp [Stmt.Fits, Expr.Fits, Stmt.passes, Stmt.height, chainCheck]

theorem span_pos (m b : Nat) : 0 < span m b := Nat.lt_of_le_of_lt (Nat.zero_le m) (lt_span m b)

/-- What a name becomes as the key of a map is as small as the name. -/
theorem Expr.Fits.asKey (h : e.Fits m b) (bare : Bool) : (e.asKey bare).Fits m b := by
  cases e with
  | name word =>
    cases bare
    · exact h
    · exact fun _ => span_pos m b
  | _ => exact h

/-! ## Lists -/

theorem lt_of_forall_mem {α : Type} {f : α → Nat} {g : List α → Nat} {l : List α} {n : Nat}
    (hnil : g [] < n) (hg : ∀ a l, g (a :: l) = max (f a) (g l)) (h : ∀ a ∈ l, f a < n) :
    g l < n := by
  induction l with
  | nil => exact hnil
  | cons a l ih =>
    obtain ⟨ha, hl⟩ := List.forall_mem_cons.mp h
    have hlt := ih hl
    rw [hg]
    omega

/-- A list is no higher than its elements may be. -/
theorem Expr.heights_lt {l : List Expr} (h : ∀ e ∈ l, e.Fits m b)
    (hp : Expr.allPass (chainCheck m) l = true) : Expr.heights l < span m b :=
  lt_of_forall_mem (span_pos m b) (fun _ _ => rfl)
    fun e he => h e he (Expr.allPass_eq_true.mp hp e he)

theorem Stmt.heights_lt {l : List Stmt} (h : ∀ stmt ∈ l, stmt.Fits m b)
    (hp : Stmt.allPass (chainCheck m) l = true) : Stmt.heights l < span m b :=
  lt_of_forall_mem (span_pos m b) (fun _ _ => rfl)
    fun stmt hstmt => h stmt hstmt (Stmt.allPass_eq_true.mp hp stmt hstmt)

theorem Expr.pairHeights_lt {l : List (Expr × Expr)}
    (h : ∀ pair ∈ l, pair.1.Fits m b ∧ pair.2.Fits m b)
    (hp : Expr.pairsPass (chainCheck m) l = true) : Expr.pairHeights l < span m b := by
  refine lt_of_forall_mem (f := fun pair : Expr × Expr => max pair.1.height pair.2.height)
    (span_pos m b) (fun _ _ => rfl) fun pair hpair => ?_
  have hpass := Expr.pairsPass_eq_true.mp hp pair hpair
  rw [Bool.and_eq_true] at hpass
  exact Nat.max_lt.mpr ⟨(h pair hpair).1 hpass.1, (h pair hpair).2 hpass.2⟩

theorem Stmt.caseHeights_lt {l : List (Expr × List Stmt)}
    (h : ∀ c ∈ l, c.1.Fits m b ∧ ∀ stmt ∈ c.2, stmt.Fits m b)
    (hp : Stmt.casesPass (chainCheck m) l = true) : Stmt.caseHeights l < span m b := by
  refine lt_of_forall_mem (f := fun c : Expr × List Stmt => max c.1.height (Stmt.heights c.2))
    (span_pos m b) (fun _ _ => rfl) fun c hc => ?_
  have hpass := Stmt.casesPass_eq_true.mp hp c hc
  rw [Bool.and_eq_true] at hpass
  exact Nat.max_lt.mpr ⟨(h c hc).1 hpass.1, Stmt.heights_lt (h c hc).2 hpass.2⟩

theorem FunctionDecl.heights_lt {l : List FunctionDecl} (h : ∀ decl ∈ l, decl.Fits m b)
    (hp : FunctionDecl.allPass (chainCheck m) l = true) : FunctionDecl.heights l < span m b :=
  lt_of_forall_mem (span_pos m b) (fun _ _ => rfl)
    fun decl hdecl => h decl hdecl (FunctionDecl.allPass_eq_true.mp hp decl hdecl)

theorem PropertyDecl.heights_lt {l : List PropertyDecl} (h : ∀ decl ∈ l, decl.Fits m b)
    (hp : PropertyDecl.allPass (chainCheck m) l = true) : PropertyDecl.heights l < span m b :=
  lt_of_forall_mem (span_pos m b) (fun _ _ => rfl)
    fun decl hdecl => h decl hdecl (PropertyDecl.allPass_eq_true.mp hp decl hdecl)

/-! ## Grammars -/

/-- The readers for what stands inside a construct keep to `b` nested chains at a depth. -/
structure Grammar.Bounds (g : Grammar) (m b d : Nat) : Prop where
  expression (level : Level) : (g.expression level).Gives d (Expr.Fits m b)
  body : g.body.Gives d (Stmt.Fits m b)

namespace Grammar.Bounds

open Parse

variable {g : Grammar} {d : Nat} (hg : g.Bounds m b d)

include hg

/-! ## Parts of expressions -/

theorem gives_statement : g.statement.Gives d (Stmt.Fits m b) :=
  hg.body.bind fun _ hstmt => Gives.skip fun _ => gives_pure hstmt

theorem gives_blockRest {first : List Stmt} (hfirst : ∀ stmt ∈ first, stmt.Fits m b) :
    (g.blockRest first).Gives d fun body => ∀ stmt ∈ body, stmt.Fits m b := by
  refine gives_loop (I := fun stmts => ∀ stmt ∈ stmts, stmt.Fits m b) (by simpa using hfirst) ?_
  intro stmts hstmts
  refine Gives.skip fun _ => Gives.skip fun l => ?_
  refine .ite (Gives.skip fun _ => gives_pure ?_) (.ite gives_unexpected ?_)
  · exact fun stmt hstmt => hstmts stmt (List.mem_reverse.mp hstmt)
  · exact hg.gives_statement.bind fun stmt hstmt =>
      gives_pure (List.forall_mem_cons.mpr ⟨hstmt, hstmts⟩)

theorem gives_block : g.block.Gives d fun body => ∀ stmt ∈ body, stmt.Fits m b :=
  Gives.skip fun _ => Gives.skip fun _ => hg.gives_blockRest (by simp)

theorem gives_parenthesized : g.parenthesized.Gives d (Expr.Fits m b) := by
  refine Gives.skip fun _ => Gives.skip fun _ => (hg.expression _).bind fun e he => ?_
  exact Gives.skip fun _ => Gives.skip fun _ => gives_pure he

theorem gives_items {close : Mark} {expected : String} :
    (g.items close expected).Gives d fun items => ∀ e ∈ items, e.Fits m b := by
  refine gives_loop (I := fun items => ∀ e ∈ items, e.Fits m b) (by simp) fun found hfound => ?_
  refine Gives.skip fun _ => Gives.skip fun _ => .ite (gives_pure ?_) ?_
  · exact fun e he => hfound e (List.mem_reverse.mp he)
  refine (hg.expression _).bind fun e he => ?_
  have hmore : ∀ e' ∈ e :: found, e'.Fits m b := List.forall_mem_cons.mpr ⟨he, hfound⟩
  refine Gives.skip fun _ => Gives.skip fun _ => .ite (gives_pure hmore) ?_
  exact Gives.skip fun _ => .ite (gives_pure hmore) gives_unexpected

theorem gives_arguments : g.arguments.Gives d fun items => ∀ e ∈ items, e.Fits m b :=
  Gives.skip fun _ => hg.gives_items

theorem gives_mapRest {first : Expr} (hfirst : first.Fits m b) :
    (g.mapRest first).Gives d fun e => ∃ pairs, e = .map pairs ∧
      ∀ pair ∈ pairs, pair.1.Fits m b ∧ pair.2.Fits m b := by
  refine gives_loop (I := fun state => state.1.Fits m b ∧
    ∀ pair ∈ state.2, pair.1.Fits m b ∧ pair.2.Fits m b) ⟨hfirst, by simp⟩ ?_
  rintro ⟨key, pairs⟩ ⟨hkey, hpairs⟩
  refine Gives.skip fun _ => Gives.skip fun _ => (hg.expression _).bind fun value hvalue => ?_
  have hmore : ∀ pair ∈ (key, value) :: pairs, pair.1.Fits m b ∧ pair.2.Fits m b :=
    List.forall_mem_cons.mpr ⟨⟨hkey, hvalue⟩, hpairs⟩
  refine Gives.skip fun _ => Gives.skip fun _ => gives_when ?_
  refine Gives.skip fun _ => .ite (gives_pure ⟨_, rfl, ?_⟩) (Gives.skip fun l => ?_)
  · exact fun pair hpair => hmore pair (List.mem_reverse.mp hpair)
  · refine .ite gives_unexpected ((hg.expression _).bind fun next hnext => ?_)
    exact gives_pure ⟨hnext.asKey _, hmore⟩

/-- A map or a block, with what stands inside it. -/
theorem gives_brace : g.brace.Gives d fun e => e.Chained m (b + 1) ∧
    ∀ body, e = .block body → ∀ stmt ∈ body, stmt.Fits m b := by
  have hmap {pairs : List (Expr × Expr)}
      (hpairs : ∀ pair ∈ pairs, pair.1.Fits m b ∧ pair.2.Fits m b) :
      (Expr.map pairs).Chained m (b + 1) := by
    refine Expr.chained_of_height fun hp => ?_
    simp only [Expr.passes, Bool.and_eq_true] at hp
    exact Expr.pairHeights_lt hpairs hp.2
  refine Gives.skip fun _ => Gives.skip fun _ => .ite (gives_pure ⟨hmap (by simp), by simp⟩) ?_
  refine Gives.skip fun l => hg.body.bind fun stmt hstmt => Gives.skip fun colon => ?_
  split
  next e =>
    refine (hg.gives_mapRest ((Stmt.fits_expr_iff.mp hstmt).asKey _)).mono ?_
    rintro _ ⟨pairs, rfl, hpairs⟩
    exact ⟨hmap hpairs, by simp⟩
  next =>
    refine Gives.skip fun _ => ?_
    refine (hg.gives_blockRest (List.forall_mem_singleton.mpr hstmt)).bind fun body hbody => ?_
    refine gives_pure ⟨Expr.chained_of_height fun hp => ?_, ?_⟩
    · simp only [Expr.passes, Bool.and_eq_true] at hp
      exact Stmt.heights_lt hbody hp.2
    · rintro _ ⟨⟩
      exact hbody

theorem gives_branch : g.branch.Gives d fun body => ∀ stmt ∈ body, stmt.Fits m (b + 1) := by
  refine Gives.skip fun _ => Gives.skip fun _ => .ite ?_ ?_
  · refine hg.gives_brace.bind fun e he => ?_
    split
    next body => exact gives_pure fun stmt hstmt => (he.2 body rfl stmt hstmt).mono
    next => exact gives_pure (List.forall_mem_singleton.mpr (Stmt.fits_expr_iff.mpr he.1.fits))
  · refine (hg.expression _).bind fun e he => gives_pure ?_
    exact List.forall_mem_singleton.mpr (Stmt.fits_expr_iff.mpr he.mono)

/-- A choice is one more link of the chain that its condition belongs to. -/
theorem gives_choice {condition : Expr} (hcondition : condition.Chained m (b + 2)) :
    (g.choice condition).Gives d (Expr.Chained m (b + 2)) := by
  have halternative (consequence : Option Block)
      (hthen : ∀ body ∈ consequence, ∀ stmt ∈ body, stmt.Fits m (b + 1)) : (do
      expectMark .colon
      return Expr.choice condition consequence (← g.branch)).Gives d (Expr.Chained m (b + 2)) := by
    refine Gives.skip fun _ => hg.gives_branch.bind fun alternative helse => gives_pure ?_
    refine Expr.chained_of_first rfl hcondition fun hp => ?_
    cases consequence with
    | none =>
      simp only [Expr.passes, Bool.and_eq_true] at hp
      exact ⟨_, Stmt.heights_lt helse hp.2, rfl⟩
    | some body =>
      simp only [Expr.passes, Bool.and_eq_true] at hp
      exact ⟨_, Nat.max_lt.mpr ⟨Stmt.heights_lt (hthen body rfl) hp.1.2,
        Stmt.heights_lt helse hp.2⟩, rfl⟩
  refine Gives.skip fun _ => .ite (halternative none (by simp)) ?_
  refine hg.gives_branch.bind fun body hbody => Gives.skip fun _ => ?_
  exact halternative (some body) (by simpa using hbody)

theorem gives_functionLiteral : g.functionLiteral.Gives d (Expr.Chained m (b + 1)) := by
  have hfunction (name : String) : (do
      let params ← parameters
      let body ← g.block
      return Expr.function ⟨name, params, some body, false⟩).Gives d (Expr.Chained m (b + 1)) := by
    refine Gives.skip fun params => hg.gives_block.bind fun body hbody => gives_pure ?_
    refine Expr.chained_of_height fun hp => ?_
    simp only [Expr.passes, FunctionDecl.passes, Bool.and_eq_true] at hp
    exact Stmt.heights_lt hbody hp.2
  exact Gives.skip fun l => .ite (Gives.skip hfunction) (hfunction _)

theorem gives_creation : g.creation.Gives d (Expr.Chained m (b + 1)) := by
  refine Gives.skip fun name => Gives.skip fun _ => ?_
  refine gives_either hg.gives_arguments (gives_pure (by simp)) fun args hargs => gives_pure ?_
  refine Expr.chained_of_height fun hp => ?_
  simp only [Expr.passes, Bool.and_eq_true] at hp
  exact Expr.heights_lt hargs hp.2

/-! ## Expressions -/

theorem gives_keywordOperand {k : Keyword} {t : Token} :
    (g.keywordOperand k t).Gives d (Expr.Chained m (b + 1)) := by
  refine Gives.skip fun _ => ?_
  split
  case h_7 => exact hg.gives_creation
  case h_8 => exact hg.gives_functionLiteral
  case h_9 =>
    refine hg.gives_arguments.bind fun operands hoperands => gives_pure ?_
    refine Expr.chained_of_height fun hp => ?_
    simp only [Expr.passes, Bool.and_eq_true] at hp
    exact Expr.heights_lt hoperands hp.2
  case h_10 =>
    refine Gives.skip fun _ => (hg.expression _).bind fun e he => Gives.skip fun _ => ?_
    refine gives_pure (Expr.chained_of_height fun hp => ?_)
    simp only [Expr.passes, Bool.and_eq_true] at hp
    exact he hp.2
  case h_11 => exact gives_fail
  all_goals exact gives_pure (Expr.chained_of_height_eq_zero rfl)

theorem gives_unary {op : UnaryOp} :
    (do return Expr.unary op (← g.expression .unary)).Gives d (Expr.Chained m (b + 1)) := by
  refine (hg.expression _).bind fun e he => gives_pure (Expr.chained_of_height fun hp => ?_)
  simp only [Expr.passes, Bool.and_eq_true] at hp
  exact he hp.2

theorem gives_markOperand {mark : Mark} {t : Token} :
    (g.markOperand mark t).Gives d (Expr.Chained m (b + 1)) := by
  unfold markOperand
  split
  next => exact hg.gives_parenthesized.mono fun _ he => he.chained
  next => exact gives_fail
  next => exact gives_fail
  next =>
    refine Gives.skip fun _ => ?_
    split
    next =>
      refine Gives.skip fun _ => .ite (Gives.skip fun _ => ?_) (Gives.skip fun _ => ?_)
      · exact gives_pure (Expr.chained_of_height_eq_zero rfl)
      · exact gives_pure (Expr.chained_of_height_eq_zero rfl)
    next => exact hg.gives_unary
    next => exact hg.gives_unary
    next =>
      refine hg.gives_items.bind fun items hitems => gives_pure ?_
      refine Expr.chained_of_height fun hp => ?_
      simp only [Expr.passes, Bool.and_eq_true] at hp
      exact Expr.heights_lt hitems hp.2
    next => exact hg.gives_brace.mono fun _ he => he.1
    next => exact gives_fail

/-- An operand fits, since whatever it contains is read one level deeper. -/
theorem gives_operand : g.operand.Gives d (Expr.Chained m (b + 1)) := by
  have hleaf {e : Expr} (he : e.height = 0) :
      (do advance; return e).Gives d (Expr.Chained m (b + 1)) :=
    Gives.skip fun _ => gives_pure (Expr.chained_of_height_eq_zero he)
  refine Gives.skip fun t => ?_
  split
  next => exact hleaf rfl
  next => exact hleaf rfl
  next => exact hleaf rfl
  next => exact hleaf rfl
  next => exact hg.gives_keywordOperand
  next => exact hg.gives_markOperand
  next => exact Gives.skip fun _ => gives_fail
  next => exact gives_fail
  next => exact gives_fail

/-- What extends an operand is one more link of its chain. -/
theorem gives_extend {left : Expr} (hleft : left.Chained m (b + 2)) :
    (g.extend left).Gives d (Expr.Chained m (b + 2)) := by
  have hlink {e : Expr} {n : Nat} (hfirst : e.first? = some (left, n))
      (hheight : e.height = left.height + 1) : e.Chained m (b + 2) :=
    Expr.chained_of_first hfirst hleft fun _ => ⟨0, span_pos m (b + 1), by simpa using hheight⟩
  have hmember {access : Access} {expected : String} :
      (do return Expr.member left (← expectName expected) access).Gives d
        (Expr.Chained m (b + 2)) :=
    Gives.skip fun _ => gives_pure (hlink rfl rfl)
  have hstep {op : StepOp} {fault : Diagnostic} :
      (if left.isTarget then return Expr.step left op else fail fault).Gives d
        (Expr.Chained m (b + 2)) :=
    .ite (gives_pure (hlink rfl rfl)) gives_fail
  refine Gives.skip fun t => ?_
  split
  next =>
    refine hg.gives_arguments.bind fun args hargs => gives_pure ?_
    refine Expr.chained_of_first rfl hleft fun hp => ?_
    simp only [Expr.passes, Bool.and_eq_true] at hp
    exact ⟨_, Expr.heights_lt (fun e he => (hargs e he).mono) hp.2, rfl⟩
  next mark h =>
    refine Gives.skip fun _ => ?_
    split
    next =>
      refine .ite (Gives.skip fun _ => (hg.expression _).bind fun value hvalue => ?_) gives_fail
      refine gives_pure (Expr.chained_of_first rfl hleft fun hp => ?_)
      simp only [Expr.passes, Bool.and_eq_true] at hp
      exact ⟨_, hvalue.mono hp.2, rfl⟩
    next => exact hg.gives_choice hleft
    next =>
      refine Gives.skip fun _ => Gives.skip fun _ => ?_
      refine gives_either (P := fun key => ∀ e ∈ key, e.Fits m b) (gives_pure (by simp))
        ((hg.expression _).map fun e he => by simpa using he) fun key hkey => ?_
      refine Gives.skip fun _ => Gives.skip fun _ => gives_pure ?_
      cases key with
      | none => exact hlink rfl rfl
      | some key =>
        refine Expr.chained_of_first rfl hleft fun hp => ?_
        simp only [Expr.passes, Bool.and_eq_true] at hp
        exact ⟨_, (hkey key rfl).mono hp.2, rfl⟩
    next => exact hmember
    next => exact hmember
    next => exact hmember
    next => exact hstep
    next => exact hstep
    next =>
      split
      · refine Gives.skip fun _ => (hg.expression _).bind fun right hright => gives_pure ?_
        refine Expr.chained_of_first rfl hleft fun hp => ?_
        simp only [Expr.passes, Bool.and_eq_true] at hp
        exact ⟨_, hright.mono hp.2, rfl⟩
      · exact gives_fail
  next => exact gives_fail

/-- Operators and suffixes add links to the chain, which the check bounds, and no levels. -/
theorem gives_climb {level : Level} : (g.climb level).Gives d (Expr.Fits m (b + 2)) := by
  refine hg.gives_operand.bind fun first hfirst => ?_
  refine gives_loop (I := Expr.Chained m (b + 2)) hfirst.mono fun left hleft => ?_
  refine Gives.skip fun l => .ite ?_ (gives_pure hleft.fits)
  exact (hg.gives_extend hleft).bind fun e he => gives_pure he

/-! ## Statements -/

theorem gives_initializer : g.initializer.Gives d fun value => ∀ e ∈ value, e.Fits m b := by
  refine Gives.skip fun _ => .ite ?_ (gives_pure (by simp))
  exact (hg.expression _).map fun e he => by simpa using he

theorem gives_declaration : g.declaration.Gives d (Stmt.Fits m b) := by
  refine Gives.skip fun typeName => Gives.skip fun name => ?_
  refine hg.gives_initializer.bind fun value hvalue => gives_pure ?_
  cases value with
  | none => exact fun _ => span_pos m b
  | some value =>
    intro hp
    simp only [Stmt.passes, Bool.and_eq_true] at hp
    exact hvalue value rfl hp.2

theorem gives_functionDecl : g.functionDecl.Gives d (FunctionDecl.Fits m b) := by
  refine Gives.skip fun isInit => Gives.skip fun _ => ?_
  have hrest (name : String) : (do
      let params ← parameters
      let body ← g.block
      return (⟨name, params, some body, isInit⟩ : FunctionDecl)).Gives d
        (FunctionDecl.Fits m b) := by
    refine Gives.skip fun params => hg.gives_block.bind fun body hbody => gives_pure fun hp => ?_
    exact Stmt.heights_lt hbody hp
  refine .ite (Gives.skip fun nameless => ?_) (Gives.skip fun nameless => ?_)
  all_goals exact .ite (Gives.skip hrest) (Gives.skip hrest)

theorem gives_property {typeName : Option String} :
    (g.property typeName).Gives d (PropertyDecl.Fits m b) := by
  refine Gives.skip fun name => hg.gives_initializer.bind fun value hvalue => ?_
  refine Gives.skip fun _ => gives_pure ?_
  cases value with
  | none => exact fun _ => span_pos m b
  | some value => exact hvalue value rfl

/-- A class fits if its properties and methods do. -/
theorem gives_members {name : String} {parent : Option String} :
    (g.members name parent).Gives d fun decl => (Stmt.classDef decl).Fits m b := by
  refine gives_loop (I := fun state => (∀ decl ∈ state.1, decl.Fits m b) ∧
    ∀ decl ∈ state.2, decl.Fits m b) ⟨by simp, by simp⟩ ?_
  rintro ⟨properties, methods⟩ ⟨hproperties, hmethods⟩
  refine Gives.skip fun _ => Gives.skip fun l => ?_
  split
  case h_1 =>
    refine Gives.skip fun _ => gives_pure fun hp => ?_
    simp only [Stmt.passes, ClassDecl.passes, Bool.and_eq_true] at hp
    refine Nat.max_lt.mpr ⟨PropertyDecl.heights_lt ?_ hp.2.1, FunctionDecl.heights_lt ?_ hp.2.2⟩
    · exact fun decl hdecl => hproperties decl (List.mem_reverse.mp hdecl)
    · exact fun decl hdecl => hmethods decl (List.mem_reverse.mp hdecl)
  case h_2 | h_3 =>
    refine hg.gives_functionDecl.bind fun decl hdecl => gives_pure ?_
    exact ⟨hproperties, List.forall_mem_cons.mpr ⟨hdecl, hmethods⟩⟩
  case h_4 =>
    refine .ite (Gives.skip fun _ => gives_pure ⟨hproperties, hmethods⟩) ?_
    refine Gives.skip fun _ => .ite (Gives.skip fun _ => ?_) gives_unexpected
    refine hg.gives_property.bind fun decl hdecl => gives_pure ?_
    exact ⟨List.forall_mem_cons.mpr ⟨hdecl, hproperties⟩, hmethods⟩
  case h_5 =>
    refine hg.gives_property.bind fun decl hdecl => gives_pure ?_
    exact ⟨List.forall_mem_cons.mpr ⟨hdecl, hproperties⟩, hmethods⟩
  all_goals exact gives_unexpected

theorem gives_classDef : g.classDef.Gives d (Stmt.Fits m b) := by
  refine Gives.skip fun _ => Gives.skip fun name => Gives.skip fun _ => ?_
  have hmembers (parent : Option String) : (do
      skipNewlines
      expectMark .leftBrace
      return Stmt.classDef (← g.members name parent)).Gives d (Stmt.Fits m b) :=
    Gives.skip fun _ => Gives.skip fun _ =>
      hg.gives_members.bind fun decl hdecl => gives_pure hdecl
  exact .ite (Gives.skip fun _ => Gives.skip hmembers) (hmembers none)

theorem gives_forEach : g.forEach.Gives d (Stmt.Fits m b) := by
  refine Gives.skip fun _ => Gives.skip fun _ => (hg.expression _).bind fun iterable hiterable => ?_
  have hbody (key : Option String) (value : String) : (do
      expectMark .rightParen
      return Stmt.forEach iterable key value (← g.block)).Gives d (Stmt.Fits m b) := by
    refine Gives.skip fun _ => hg.gives_block.bind fun body hbody => gives_pure fun hp => ?_
    simp only [Stmt.passes, Bool.and_eq_true] at hp
    exact Nat.max_lt.mpr ⟨hiterable hp.1.2, Stmt.heights_lt hbody hp.2⟩
  refine Gives.skip fun _ => Gives.skip fun first => Gives.skip fun _ => ?_
  exact .ite (Gives.skip fun value => hbody (some first) value) (hbody none first)

theorem gives_whileLoop : g.whileLoop.Gives d (Stmt.Fits m b) := by
  refine Gives.skip fun _ => hg.gives_parenthesized.bind fun condition hcondition => ?_
  refine hg.gives_block.bind fun body hbody => gives_pure fun hp => ?_
  simp only [Stmt.passes, Bool.and_eq_true] at hp
  exact Nat.max_lt.mpr ⟨hcondition hp.1.2, Stmt.heights_lt hbody hp.2⟩

theorem gives_doWhile : g.doWhile.Gives d (Stmt.Fits m b) := by
  refine Gives.skip fun _ => hg.gives_block.bind fun body hbody => ?_
  refine Gives.skip fun _ => Gives.skip fun _ => ?_
  refine hg.gives_parenthesized.bind fun condition hcondition => gives_pure fun hp => ?_
  simp only [Stmt.passes, Bool.and_eq_true] at hp
  exact Nat.max_lt.mpr ⟨hcondition hp.2, Stmt.heights_lt hbody hp.1.2⟩

theorem gives_tryCatch : g.tryCatch.Gives d (Stmt.Fits m b) := by
  refine Gives.skip fun _ => hg.gives_block.bind fun body hbody => ?_
  refine Gives.skip fun _ => Gives.skip fun _ => Gives.skip fun _ => Gives.skip fun _ => ?_
  refine Gives.skip fun caught => Gives.skip fun _ => ?_
  refine hg.gives_block.bind fun handler hhandler => gives_pure fun hp => ?_
  simp only [Stmt.passes, Bool.and_eq_true] at hp
  exact Nat.max_lt.mpr ⟨Stmt.heights_lt hbody hp.1.2, Stmt.heights_lt hhandler hp.2⟩

theorem gives_branchOn : g.branchOn.Gives d (Stmt.Fits m b) := by
  refine Gives.skip fun _ => hg.gives_parenthesized.bind fun condition hcondition => ?_
  refine hg.gives_block.bind fun consequence hthen => Gives.skip fun _ => ?_
  have hsome (alternative : Block) (helse : ∀ stmt ∈ alternative, stmt.Fits m b) :
      (Stmt.branch condition consequence (some alternative)).Fits m b := by
    intro hp
    simp only [Stmt.passes, Bool.and_eq_true] at hp
    exact Nat.max_lt.mpr ⟨hcondition hp.1.1.2,
      Nat.max_lt.mpr ⟨Stmt.heights_lt hthen hp.1.2, Stmt.heights_lt helse hp.2⟩⟩
  refine .ite (Gives.skip fun _ => .ite ?_ ?_) (gives_pure fun hp => ?_)
  · exact hg.body.bind fun inner hinner =>
      gives_pure (hsome [inner] (List.forall_mem_singleton.mpr hinner))
  · refine Gives.bind (P := fun alternative => ∃ body, alternative = some body ∧
      ∀ stmt ∈ body, stmt.Fits m b) (hg.gives_block.map fun body hbody => ⟨body, rfl, hbody⟩) ?_
    rintro _ ⟨body, rfl, hbody⟩
    exact gives_pure (hsome body hbody)
  · simp only [Stmt.passes, Bool.and_eq_true] at hp
    exact Nat.max_lt.mpr ⟨hcondition hp.1.2, Stmt.heights_lt hthen hp.2⟩

theorem gives_caseBody : g.caseBody.Gives d fun body => ∀ stmt ∈ body, stmt.Fits m b := by
  refine gives_loop (I := fun stmts => ∀ stmt ∈ stmts, stmt.Fits m b) (by simp) ?_
  intro stmts hstmts
  refine Gives.skip fun _ => Gives.skip fun l => ?_
  split
  case h_4 => exact gives_unexpected
  case h_5 =>
    exact hg.gives_statement.bind fun stmt hstmt =>
      gives_pure (List.forall_mem_cons.mpr ⟨hstmt, hstmts⟩)
  all_goals exact gives_pure fun stmt hstmt => hstmts stmt (List.mem_reverse.mp hstmt)

theorem gives_select : g.select.Gives d (Stmt.Fits m b) := by
  refine Gives.skip fun _ => hg.gives_parenthesized.bind fun subject hsubject => ?_
  refine Gives.skip fun _ => Gives.skip fun _ => ?_
  refine gives_loop (I := fun state =>
    (∀ c ∈ state.1, c.1.Fits m b ∧ ∀ stmt ∈ c.2, stmt.Fits m b) ∧
      ∀ body ∈ state.2, ∀ stmt ∈ body, stmt.Fits m b) ⟨by simp, by simp⟩ ?_
  rintro ⟨cases, fallback⟩ ⟨hcases, hfallback⟩
  refine Gives.skip fun _ => Gives.skip fun l => ?_
  split
  next =>
    have hreverse : ∀ c ∈ cases.reverse, c.1.Fits m b ∧ ∀ stmt ∈ c.2, stmt.Fits m b :=
      fun c hc => hcases c (List.mem_reverse.mp hc)
    refine Gives.skip fun _ => gives_pure fun hp => ?_
    cases fallback with
    | none =>
      simp only [Stmt.passes, Bool.and_eq_true] at hp
      exact Nat.max_lt.mpr ⟨hsubject hp.1.2, Stmt.caseHeights_lt hreverse hp.2⟩
    | some body =>
      simp only [Stmt.passes, Bool.and_eq_true] at hp
      exact Nat.max_lt.mpr ⟨hsubject hp.1.1.2, Nat.max_lt.mpr
        ⟨Stmt.caseHeights_lt hreverse hp.1.2, Stmt.heights_lt (hfallback body rfl) hp.2⟩⟩
  next =>
    refine Gives.skip fun _ => (hg.expression _).bind fun value hvalue => Gives.skip fun _ => ?_
    refine hg.gives_caseBody.bind fun body hbody => gives_pure ?_
    exact ⟨List.forall_mem_cons.mpr ⟨⟨hvalue, hbody⟩, hcases⟩, hfallback⟩
  next =>
    refine Gives.skip fun _ => Gives.skip fun _ => ?_
    refine hg.gives_caseBody.bind fun body hbody => gives_pure ⟨hcases, by simpa using hbody⟩
  next => exact gives_unexpected

omit hg in
theorem gives_load : load.Gives d (Stmt.Fits m b) := by
  refine Gives.skip fun _ => Gives.skip fun l => ?_
  split
  · exact Gives.skip fun _ => gives_pure fun _ => span_pos m b
  · exact gives_unexpected

omit hg in
theorem gives_package : package.Gives d (Stmt.Fits m b) := by
  refine Gives.skip fun _ => gives_loop (I := fun _ => True) trivial fun name _ => ?_
  refine Gives.skip fun l => .ite (gives_pure fun _ => span_pos m b) ?_
  exact Gives.skip fun _ => gives_pure trivial

theorem gives_keywordBody {k : Keyword} {second : Lexeme}
    (hexpr : (g.expressionOf .lowest).Gives d (Expr.Fits m b)) :
    (g.keywordBody k second).Gives d (Stmt.Fits m b) := by
  have hexpression : (do return Stmt.expr (← g.expressionOf .lowest)).Gives d (Stmt.Fits m b) :=
    hexpr.bind fun e he => gives_pure (Stmt.fits_expr_iff.mpr he)
  have hfunction : (do return Stmt.functionDef (← g.functionDecl)).Gives d (Stmt.Fits m b) := by
    refine hg.gives_functionDecl.bind fun decl hdecl => gives_pure fun hp => ?_
    simp only [Stmt.passes, Bool.and_eq_true] at hp
    exact hdecl hp.2
  have hinner {f : Expr → Stmt} (hf : ∀ e, (f e).Fits m b ↔ (Stmt.expr e).Fits m b) : (do
      return f (← g.expression .lowest)).Gives d (Stmt.Fits m b) :=
    (hg.expression _).bind fun e he => gives_pure ((hf e).mpr (Stmt.fits_expr_iff.mpr he))
  have hleaf {stmt : Stmt} (hstmt : stmt.height = 0) :
      (pure stmt : Parse Stmt).Gives d (Stmt.Fits m b) :=
    gives_pure fun _ => hstmt ▸ span_pos m b
  unfold keywordBody
  split
  next => exact hg.gives_classDef
  next => exact hfunction
  next => exact hg.gives_forEach
  next => exact gives_load
  next => exact gives_package
  next => exact hg.gives_whileLoop
  next => exact hg.gives_doWhile
  next => exact hg.gives_tryCatch
  next => exact hg.gives_branchOn
  next => exact hg.gives_select
  next => exact Gives.skip fun _ => hinner fun _ => Iff.rfl
  next =>
    refine Gives.skip fun _ => Gives.skip fun _ => .ite (hleaf rfl) ?_
    exact hinner (f := fun e => .returns (some e)) fun _ => Iff.rfl
  next => exact Gives.skip fun _ => hleaf rfl
  next => exact Gives.skip fun _ => hleaf rfl
  next => exact .ite hfunction hexpression
  next => exact .ite hexpression (Gives.skip fun _ => hinner fun _ => Iff.rfl)
  next => exact .ite hexpression (Gives.skip fun _ => hinner fun _ => Iff.rfl)
  next => exact hexpression

/-- Every statement fits into the room of its level. -/
theorem gives_bodyOf (hexpr : (g.expressionOf .lowest).Gives d (Expr.Fits m b)) :
    g.bodyOf.Gives d (Stmt.Fits m b) := by
  refine Gives.skip fun first => Gives.skip fun second => ?_
  split
  next => exact hg.gives_keywordBody hexpr
  next => exact hg.gives_declaration
  next => exact hexpr.bind fun e he => gives_pure (Stmt.fits_expr_iff.mpr he)

end Grammar.Bounds

/-! ## Programs -/

namespace Grammar

open Parse

/-- A depth leaves room for two chains inside each other: a choice and a map in one of its branches
take one depth together. -/
def room (d : Nat) : Nat := 2 * (maxDepth - d)

theorem gives_expressionOf {g : Grammar} (hg : ∀ d, g.Bounds m (room d) d) (level : Level)
    (d : Nat) : (g.expressionOf level).Gives d (Expr.Fits m (room d)) := by
  refine gives_depth ?_
  split
  · exact Gives.skip fun t => gives_fail
  next hd =>
    have hroom : room d = room (d + 1) + 2 := by
      simp only [room]
      omega
    rw [hroom]
    exact gives_nested (hg (d + 1)).gives_climb

/-- The reader with any number of steps keeps to the room of its level. The induction is on the
steps. -/
theorem bounds_within (m n d : Nat) : (within n).Bounds m (room d) d := by
  induction n generalizing d with
  | zero =>
    constructor
    · intro level s e rest h
      cases h
    · intro s stmt rest h
      cases h
  | succ n ih =>
    have hexpr := gives_expressionOf ih
    exact ⟨fun level => hexpr level d, (ih d).gives_bodyOf (hexpr .lowest d)⟩

end Grammar

/-- All statements that are read fit into the room of the top level. -/
theorem Stream.fits_statements (m n : Nat) (s : Stream) :
    ∀ stmt ∈ (s.statements n).statements, stmt.Fits m (Grammar.room 0) := by
  induction n generalizing s with
  | zero => simp [Stream.statements]
  | succ n ih =>
    simp only [Stream.statements]
    split
    · simp
    · split
      next stmt rest h =>
        have hg := Grammar.bounds_within m
        exact List.forall_mem_cons.mpr ⟨(hg _ 0).gives_statement _ stmt rest h, ih rest⟩
      next => exact ih _

theorem Program.fits_ofSource {source : String} {p : Program}
    (h : Program.ofSource source = .ok p) :
    ∀ stmt ∈ p.statements, stmt.Fits m (Grammar.room 0) := by
  rw [Program.ofSource, Reading.ofSource_eq] at h
  split at h
  · cases h
    exact Stream.fits_statements m _ _
  · cases h

/-- Members of members are a single chain. -/
theorem NamePath.chain_expr (p : NamePath) :
    p.expr.height = p.members.length ∧ p.expr.links = p.members.length ∧
      ∀ m, p.members.length ≤ m → p.expr.passes (chainCheck m) = true := by
  obtain ⟨root, members⟩ := p
  unfold NamePath.expr
  dsimp only
  induction members using List.reverseRecOn with
  | nil => simp [Expr.height, Expr.links, Expr.passes, chainCheck]
  | append_singleton members last ih =>
    obtain ⟨hheight, hlinks, hpass⟩ := ih
    rw [List.foldl_append, List.foldl_cons, List.foldl_nil, List.length_append,
      List.length_singleton]
    refine ⟨congrArg (· + 1) hheight, congrArg (· + 1) hlinks, fun m hm => ?_⟩
    have hlink : (chainCheck m).expr (.member (members.foldl
        (fun object l => .member object l.2 l.1) (.name root)) last.2 last.1) = true := by
      simpa [chainCheck, Expr.links, hlinks] using hm
    rw [Expr.passes, hlink, hpass m (by omega)]
    rfl

/-- The source text of a variable with a number of members. -/
theorem Program.ofSource_members (n : Nat) :
    ∃ source p, Program.ofSource source = .ok p ∧
      Stmt.allPass (chainCheck n) p.statements = true ∧ Stmt.heights p.statements = n := by
  have hspelled : NamePath.isSpelled ⟨"a", List.replicate n (.dot, "b")⟩ = true := by
    have hroot : isWord "a" = true := by decide +kernel
    have hmember : isWord "b" = true := by decide +kernel
    simp [NamePath.isSpelled, NamePath.words, hroot, hmember]
  refine ⟨_, _, NamePath.ofSource_named hspelled, ?_⟩
  obtain ⟨hheight, -, hpass⟩ :=
    NamePath.chain_expr (NamePath.named ⟨"a", List.replicate n (.dot, "b")⟩)
  have hlength : (NamePath.named ⟨"a", List.replicate n (.dot, "b")⟩).members.length = n := by
    simp [NamePath.named]
  rw [hlength] at hheight hpass
  refine ⟨Stmt.allPass_eq_true.mpr (List.forall_mem_singleton.mpr ?_), ?_⟩
  · rw [Stmt.passes, hpass n (Nat.le_refl n)]
    rfl
  · simp [Stmt.heights, Stmt.height, hheight]

/-- What is read with chains of at most `m` links is bounded in its height by the limit for the
nesting; but a chain is not bounded in its length, and one of `m` links has the height `m`. -/
theorem Program.heights_bounded_by_chains (m : Nat) :
    (∀ source p, Program.ofSource source = .ok p →
      Stmt.allPass (chainCheck m) p.statements = true →
      Stmt.heights p.statements < (m + 1) * (2 * maxDepth + 1)) ∧
    ∃ source p, Program.ofSource source = .ok p ∧
      Stmt.allPass (chainCheck m) p.statements = true ∧ Stmt.heights p.statements = m := by
  refine ⟨fun source p h hm => ?_, Program.ofSource_members m⟩
  exact Stmt.heights_lt (Program.fits_ofSource h) hm

/-- A program that is higher than the limit for the nesting, and the bound for it. -/
theorem Program.heights_bounded_by_chains_thousand :
    ∃ source p, Program.ofSource source = .ok p ∧ maxDepth < Stmt.heights p.statements ∧
      Stmt.allPass (chainCheck 1000) p.statements = true ∧
      Stmt.heights p.statements < 1001 * (2 * maxDepth + 1) := by
  obtain ⟨hbound, source, p, hread, hchain, hheight⟩ := Program.heights_bounded_by_chains 1000
  refine ⟨source, p, hread, ?_, hchain, hbound source p hread hchain⟩
  rw [hheight]
  decide

end RouteScript
