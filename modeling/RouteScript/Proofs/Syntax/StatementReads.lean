import RouteScript.Proofs.Syntax.ExpressionReads
import RouteScript.Syntax.Statement

/-!
# What the readers of statements read

One statement for each kind of statement, as for expressions: if the grammar reads what stands
inside, then the reader reads the whole.
-/

namespace RouteScript.Grammar

open Parse

variable {g : Grammar} {d : Nat} {ls rest : List Lexeme} {e : Expr} {stmt : Stmt}
  {w : Stmt → List Lexeme}

/-! ## How a statement starts -/

/-- A keyword decides on the statement it starts. -/
theorem reads_bodyOf_keyword {k : Keyword}
    (h : Reads (g.keywordBody k (front (ls ++ rest))) d (.keyword k :: ls) stmt rest) :
    Reads g.bodyOf d (.keyword k :: ls) stmt rest := by
  refine reads_peek.bind_nil ?_
  exact reads_peekSecond.bind_nil h

/-- What starts like an operand is an expression. -/
theorem reads_bodyOf_expr (hs : (front ls).startsOperand = true)
    (h : Reads (g.expressionOf .lowest) d ls e rest) : Reads g.bodyOf d ls (.expr e) rest := by
  have hne : ls ≠ [] := ne_nil_of_startsOperand hs
  have hbody : Reads (do return Stmt.expr (← g.expressionOf .lowest)) d ls (.expr e) rest :=
    h.bind_last .pure
  refine reads_peek.bind_nil ?_
  refine reads_peekSecond.bind_nil ?_
  rw [front_append_of_ne_nil hne]
  cases hfront : front ls with
  | keyword k =>
    rw [hfront] at hs
    cases k <;> first | exact hbody | exact absurd hs (by decide)
  | integer | float | text | mark => exact hbody
  | name | illegal | newline | eof =>
    rw [hfront] at hs
    exact absurd hs (by simp [Lexeme.startsOperand])

/-! ## Declarations -/

theorem reads_initializer (h : g.Takes d ls e) (hrest : (front rest).level = .lowest) :
    Reads g.initializer d (.mark .assign :: ls) (some e) rest := by
  refine reads_takeMark.bind_one ?_
  exact (h.reads _ hrest).map some

theorem reads_initializer_none (hrest : (front rest).level = .lowest) :
    Reads g.initializer d [] none rest := by
  refine (reads_takeMark_of_not ?_).bind_nil .pure
  rw [List.nil_append]
  cases hfront : front rest with
  | mark m =>
    rw [hfront] at hrest
    cases m <;> first | rfl | exact absurd hrest (by decide)
  | _ => rfl

/-- A declaration, in front of its initial value. -/
theorem reads_declaration {typeName name : String} {value : Option Expr}
    (htype : Keyword.ofWord? typeName = none) (h : Reads g.initializer d ls value rest) :
    Reads g.bodyOf d (.ofWord typeName :: .mark .dollar :: .ofWord name :: ls)
      (.declare typeName name value) rest := by
  rw [Lexeme.ofWord_of_none htype]
  refine reads_peek.bind_nil ?_
  refine reads_peekSecond.bind_nil ?_
  refine (reads_expectName rfl).bind_one ?_
  have hname : Reads (expectVariable "variable name") d [.mark .dollar, .ofWord name] name
      (ls ++ rest) := reads_expectVariable (Lexeme.word?_ofWord name)
  exact hname.bind (h.bind_last .pure)

/-! ## Functions and classes -/

def functionTail (w : Stmt → List Lexeme) (params : List Parameter) (body : List Stmt) :
    List Lexeme :=
  parens (commas (params.map Parameter.lexemes)) ++ braces (sequence w body)

/-- A function is read back with its parameters and its body. -/
theorem reads_functionDecl {name : String} {params : List Parameter} {body : List Stmt}
    {isInit : Bool} (hname : Keyword.ofWord? name = none)
    (hparams : ∀ p ∈ params, p.isTyped = true)
    (h : ∀ stmt ∈ body, g.TakesStmt d (w stmt) stmt) :
    Reads g.functionDecl d
      (.keyword (functionKeyword isInit) :: .ofWord name :: functionTail w params body)
      ⟨name, params, some body, isInit⟩ rest := by
  rw [Lexeme.ofWord_of_none hname]
  have htail : Reads (do
      let params ← parameters
      let body ← g.block
      return FunctionDecl.mk name params (some body) isInit) d (functionTail w params body)
      ⟨name, params, some body, isInit⟩ rest :=
    (reads_parameters params hparams).bind ((reads_block h).bind_last .pure)
  cases isInit with
  | false =>
    refine (reads_atKeyword_of_not rfl).bind_nil ?_
    refine reads_advance.bind_one ?_
    refine Reads.pure.bind_nil ?_
    exact (reads_expectName rfl).bind_one htail
  | true =>
    refine (reads_atKeyword rfl).bind_nil ?_
    refine reads_advance.bind_one ?_
    refine (reads_atMark_of_not rfl).bind_nil ?_
    exact (reads_expectName rfl).bind_one htail

theorem reads_functionDef {name : String} {params : List Parameter} {body : List Stmt}
    {isInit : Bool} (hname : Keyword.ofWord? name = none)
    (hparams : ∀ p ∈ params, p.isTyped = true)
    (h : ∀ stmt ∈ body, g.TakesStmt d (w stmt) stmt) :
    Reads g.bodyOf d
      (.keyword (functionKeyword isInit) :: .ofWord name :: functionTail w params body)
      (.functionDef ⟨name, params, some body, isInit⟩) rest := by
  refine reads_bodyOf_keyword ?_
  have hdecl : Reads g.functionDecl d (.keyword (functionKeyword isInit) :: .ofWord name ::
      functionTail w params body) _ rest := reads_functionDecl hname hparams h
  rw [Lexeme.ofWord_of_none hname] at hdecl ⊢
  cases isInit with
  | false => exact hdecl.bind_last .pure
  | true => exact hdecl.bind_last .pure

/-- How a property is written behind its type, with the semicolon behind it. -/
def propertyTail (w : Expr → List Lexeme) (p : PropertyDecl) : List Lexeme :=
  .mark .dollar :: .ofWord p.name ::
    (p.initial.elim [] (fun e => .mark .assign :: w e) ++ [.mark .semicolon])

def propertyLexemes (w : Expr → List Lexeme) (p : PropertyDecl) : List Lexeme :=
  p.typeName.toList.map .ofWord ++ propertyTail w p

def methodLexemes (w : Stmt → List Lexeme) (m : FunctionDecl) : List Lexeme :=
  .keyword (functionKeyword m.isInit) :: .ofWord m.name ::
    functionTail w m.params (m.body.getD [])

def TakesProperty (g : Grammar) (d : Nat) (w : Expr → List Lexeme) (p : PropertyDecl) : Prop :=
  (∀ typeName ∈ p.typeName, Keyword.ofWord? typeName = none ∧ isModifier typeName = false) ∧
    ∀ e ∈ p.initial, g.Takes d (w e) e

def TakesMethod (g : Grammar) (d : Nat) (w : Stmt → List Lexeme) (m : FunctionDecl) : Prop :=
  Keyword.ofWord? m.name = none ∧ (∀ p ∈ m.params, p.isTyped = true) ∧
    ∃ body, m.body = some body ∧ ∀ stmt ∈ body, g.TakesStmt d (w stmt) stmt

theorem TakesProperty.property {we : Expr → List Lexeme} {p : PropertyDecl}
    (h : g.TakesProperty d we p) : Reads (g.property p.typeName) d (propertyTail we p) p rest := by
  obtain ⟨name, typeName, initial⟩ := p
  have hname : ∀ rest, Reads (expectVariable "property name") d [.mark .dollar, .ofWord name] name
      rest := fun _ => reads_expectVariable (Lexeme.word?_ofWord name)
  refine (hname _).bind ?_
  cases initial with
  | none =>
    refine (reads_initializer_none rfl).bind_nil ?_
    exact reads_terminator.bind_last .pure
  | some e =>
    refine (reads_initializer (h.2 e rfl) rfl).bind ?_
    exact reads_terminator.bind_last .pure

theorem TakesMethod.functionDecl {m : FunctionDecl} (h : g.TakesMethod d w m) :
    Reads g.functionDecl d (methodLexemes w m) m rest := by
  obtain ⟨name, params, body, isInit⟩ := m
  obtain ⟨hname, hparams, stmts, rfl, hstmts⟩ := h
  exact reads_functionDecl hname hparams hstmts

/-- The members of a class: its properties, and then its methods. -/
theorem reads_members {name : String} {parent : Option String} {we : Expr → List Lexeme}
    {ps : List PropertyDecl} {ms : List FunctionDecl} (hp : ∀ p ∈ ps, g.TakesProperty d we p)
    (hm : ∀ m ∈ ms, g.TakesMethod d w m) :
    Reads (g.members name parent) d
      (ps.flatMap (propertyLexemes we) ++ (ms.flatMap (methodLexemes w) ++ [.mark .rightBrace]))
      ⟨name, parent, ps, ms⟩ rest := by
  refine Iterates.reads ?_
  change Iterates _ d ([], []) _ (ClassDecl.mk name parent (([] : List PropertyDecl).reverse ++ ps)
    (([] : List FunctionDecl).reverse ++ ms)) rest
  generalize ([] : List PropertyDecl) = properties
  generalize ([] : List FunctionDecl) = methods
  induction ps generalizing properties with
  | nil =>
    rw [List.append_nil, List.flatMap_nil, List.nil_append]
    induction ms generalizing methods with
    | nil =>
      rw [List.append_nil]
      refine Iterates.done ?_
      refine (reads_skipSeparators rfl).bind_nil ?_
      refine reads_peek.bind_nil ?_
      exact reads_advance.bind_one .pure
    | cons m ms ih =>
      have hrest := ih (fun m' hm' => hm m' (by simp [hm'])) (m :: methods)
      rw [List.reverse_cons, List.append_assoc, List.singleton_append] at hrest
      rw [List.flatMap_cons, List.append_assoc]
      refine Iterates.more ?_ (by simp [methodLexemes]) hrest
      have hdecl : ∀ rest, Reads g.functionDecl d (methodLexemes w m) m rest :=
        fun _ => (hm m (by simp)).functionDecl
      obtain ⟨mname, params, body, isInit⟩ := m
      cases isInit with
      | false =>
        refine (reads_skipSeparators rfl).bind_nil ?_
        refine reads_peek.bind_nil ?_
        exact (hdecl _).bind_last .pure
      | true =>
        refine (reads_skipSeparators rfl).bind_nil ?_
        refine reads_peek.bind_nil ?_
        exact (hdecl _).bind_last .pure
  | cons p ps ih =>
    have hrest := ih (fun p' hp' => hp p' (by simp [hp'])) (p :: properties)
    rw [List.reverse_cons, List.append_assoc, List.singleton_append] at hrest
    have htake := hp p (by simp)
    have hproperty : ∀ rest, Reads (g.property p.typeName) d (propertyTail we p) p rest :=
      fun _ => htake.property
    obtain ⟨pname, typeName, initial⟩ := p
    rw [List.flatMap_cons, List.append_assoc]
    refine Iterates.more ?_ (by simp [propertyLexemes, propertyTail]) hrest
    cases typeName with
    | none =>
      refine (reads_skipSeparators rfl).bind_nil ?_
      refine reads_peek.bind_nil ?_
      exact (hproperty _).bind_last .pure
    | some typeName =>
      obtain ⟨hkeyword, hmodifier⟩ := htake.1 typeName rfl
      simp only [propertyLexemes, Option.toList_some, List.map_cons, List.map_nil,
        List.singleton_append, Lexeme.ofWord_of_none hkeyword]
      refine (reads_skipSeparators rfl).bind_nil ?_
      refine reads_peek.bind_nil ?_
      dsimp only [List.cons_append, front_cons]
      rw [if_neg (by simp [hmodifier])]
      refine reads_peekSecond.bind_nil ?_
      refine (reads_expectName rfl).bind_one ?_
      exact (hproperty _).bind_last .pure

/-- A class is read back with its properties and its methods. -/
theorem reads_classDef {name : String} {parent : Option String} {we : Expr → List Lexeme}
    {ps : List PropertyDecl} {ms : List FunctionDecl} (hp : ∀ p ∈ ps, g.TakesProperty d we p)
    (hm : ∀ m ∈ ms, g.TakesMethod d w m) :
    Reads g.bodyOf d (.keyword .classKw :: .ofWord name ::
      ((parent.toList.flatMap fun parent => [.keyword .extendsKw, .ofWord parent]) ++
        braces (ps.flatMap (propertyLexemes we) ++ ms.flatMap (methodLexemes w))))
      (.classDef ⟨name, parent, ps, ms⟩) rest := by
  refine reads_bodyOf_keyword ?_
  refine reads_expectKeyword.bind_one ?_
  refine (reads_expectName (Lexeme.word?_ofWord name)).bind_one ?_
  have hmembers : Reads (g.members name parent) d _ _ rest := reads_members hp hm
  rw [← List.append_assoc] at hmembers
  cases parent with
  | none =>
    refine (reads_atKeyword_of_not rfl).bind_nil ?_
    refine Reads.pure.bind_nil ?_
    refine (reads_skipNewlines rfl).bind_nil ?_
    refine reads_expectMark.bind_one ?_
    exact hmembers.bind_last .pure
  | some parent =>
    refine (reads_atKeyword rfl).bind_nil ?_
    refine reads_advance.bind_one ?_
    refine ((reads_expectName (Lexeme.word?_ofWord parent)).map some).bind_one ?_
    refine (reads_skipNewlines rfl).bind_nil ?_
    refine reads_expectMark.bind_one ?_
    exact hmembers.bind_last .pure

/-! ## Loops -/

theorem reads_forEach {key : Option String} {value : String} {body : List Stmt}
    (he : g.Takes d ls e) (h : ∀ stmt ∈ body, g.TakesStmt d (w stmt) stmt) :
    Reads g.bodyOf d (.keyword .foreachKw :: (parens (ls ++ .keyword .asKw ::
      ((key.toList.flatMap fun key => [.mark .dollar, .ofWord key, .mark .fatArrow]) ++
        [.mark .dollar, .ofWord value])) ++ braces (sequence w body)))
      (.forEach e key value body) rest := by
  have hname : ∀ (word expected : String) (rest : List Lexeme),
      Reads (expectVariable expected) d [.mark .dollar, .ofWord word] word rest :=
    fun word _ _ => reads_expectVariable (Lexeme.word?_ofWord word)
  have hbody : ∀ rest, Reads g.block d (braces (sequence w body)) body rest :=
    fun _ => reads_block h
  simp only [parens, List.append_assoc, List.cons_append, List.nil_append]
  refine reads_bodyOf_keyword ?_
  refine reads_expectKeyword.bind_one ?_
  refine reads_expectMark.bind_one ?_
  refine (he.reads _ rfl).bind ?_
  refine reads_expectKeyword.bind_one ?_
  cases key with
  | none =>
    refine (hname value _ _).bind ?_
    refine (reads_takeMark_of_not rfl).bind_nil ?_
    refine Reads.pure.bind_nil ?_
    refine reads_expectMark.bind_one ?_
    exact (hbody _).bind_last .pure
  | some key =>
    refine (hname key _ _).bind ?_
    refine reads_takeMark.bind_one ?_
    refine (hname value _ _).bind ?_
    refine Reads.pure.bind_nil ?_
    refine reads_expectMark.bind_one ?_
    exact (hbody _).bind_last .pure

theorem reads_whileLoop {body : List Stmt} (he : g.Takes d ls e)
    (h : ∀ stmt ∈ body, g.TakesStmt d (w stmt) stmt) :
    Reads g.bodyOf d (.keyword .whileKw :: (parens ls ++ braces (sequence w body)))
      (.whileLoop e body) rest := by
  refine reads_bodyOf_keyword ?_
  refine reads_expectKeyword.bind_one ?_
  refine he.parenthesized.bind ?_
  exact (reads_block h).bind_last .pure

theorem reads_doWhile {body : List Stmt} (he : g.Takes d ls e)
    (h : ∀ stmt ∈ body, g.TakesStmt d (w stmt) stmt) :
    Reads g.bodyOf d
      (.keyword .doKw :: (braces (sequence w body) ++ .keyword .whileKw :: parens ls))
      (.doWhile body e) rest := by
  refine reads_bodyOf_keyword ?_
  refine reads_expectKeyword.bind_one ?_
  refine (reads_block h).bind ?_
  refine (reads_skipNewlines rfl).bind_nil ?_
  refine reads_expectKeyword.bind_one ?_
  exact he.parenthesized.bind_last .pure

/-! ## Handlers and choices -/

theorem reads_tryCatch {body handler : List Stmt} {caught : String}
    (hb : ∀ stmt ∈ body, g.TakesStmt d (w stmt) stmt)
    (hh : ∀ stmt ∈ handler, g.TakesStmt d (w stmt) stmt) :
    Reads g.bodyOf d (.keyword .tryKw :: (braces (sequence w body) ++ .keyword .catchKw ::
      (parens [.mark .dollar, .ofWord caught] ++ braces (sequence w handler))))
      (.tryCatch body caught handler) rest := by
  refine reads_bodyOf_keyword ?_
  refine reads_expectKeyword.bind_one ?_
  refine (reads_block hb).bind ?_
  refine (reads_skipNewlines rfl).bind_nil ?_
  refine reads_expectKeyword.bind_one ?_
  refine reads_expectMark.bind_one ?_
  refine reads_takeMark.bind_one ?_
  refine (reads_expectName (Lexeme.word?_ofWord caught)).bind_one ?_
  refine reads_expectMark.bind_one ?_
  exact (reads_block hh).bind_last .pure

theorem reads_lineBreakThen {k : Keyword} :
    Reads (lineBreakThen k) d [.keyword k] true rest := by
  intro s hs
  obtain ⟨t, ts, htokens⟩ : ∃ t ts, s.tokens = t :: ts :=
    List.exists_cons_of_ne_nil fun h => by simp [Stream.lexemes, h] at hs
  have ht : t.lexeme = .keyword k := by
    simp [Stream.lexemes, htokens] at hs
    exact hs.1
  simp [lineBreakThen_apply, Stream.dropWhile, htokens, ht, Lexeme.isNewline, Stream.head,
    Lexeme.isKeyword, Stream.tail, Stream.drop]

/-- With neither a line break nor the keyword next, nothing is taken in. -/
theorem reads_lineBreakThen_of_not {k : Keyword} (hn : (front rest).isNewline = false)
    (hk : (front rest).isKeyword k = false) : Reads (lineBreakThen k) d [] false rest := by
  intro s hs
  have hfront : s.head.lexeme = front rest := by
    rw [s.head_lexeme, hs, List.nil_append]
  have hskip : s.dropWhile Lexeme.isNewline = s :=
    Stream.dropWhile_of_neg fun _ => by simp [hfront, hn]
  simp [lineBreakThen_apply, hskip, hfront, hk]

theorem reads_branchOn {body other : List Stmt} (he : g.Takes d ls e)
    (hb : ∀ stmt ∈ body, g.TakesStmt d (w stmt) stmt)
    (ho : ∀ stmt ∈ other, g.TakesStmt d (w stmt) stmt) :
    Reads g.bodyOf d (.keyword .ifKw :: (parens ls ++ (braces (sequence w body) ++
      .keyword .elseKw :: braces (sequence w other)))) (.branch e body (some other)) rest := by
  refine reads_bodyOf_keyword ?_
  refine reads_expectKeyword.bind_one ?_
  refine he.parenthesized.bind ?_
  refine (reads_block hb).bind ?_
  refine reads_lineBreakThen.bind_one ?_
  refine (reads_atKeyword_of_not rfl).bind_nil ?_
  exact ((reads_block ho).map some).bind_last .pure

/-- A condition without another branch ends where no `else` follows. -/
theorem reads_branchOn_none {body : List Stmt} (he : g.Takes d ls e)
    (hb : ∀ stmt ∈ body, g.TakesStmt d (w stmt) stmt)
    (hn : (front rest).isNewline = false) (hk : (front rest).isKeyword .elseKw = false) :
    Reads g.bodyOf d (.keyword .ifKw :: (parens ls ++ braces (sequence w body)))
      (.branch e body none) rest := by
  refine reads_bodyOf_keyword ?_
  refine reads_expectKeyword.bind_one ?_
  refine he.parenthesized.bind ?_
  refine (reads_block hb).bind_last ?_
  refine (reads_lineBreakThen_of_not hn hk).bind_nil ?_
  exact Reads.pure.bind_nil .pure

def endsCase (l : Lexeme) : Prop :=
  l = .keyword .caseKw ∨ l = .keyword .defaultKw ∨ l = .mark .rightBrace

theorem reads_caseBody {body : List Stmt} (h : ∀ stmt ∈ body, g.TakesStmt d (w stmt) stmt)
    (hend : endsCase (front rest)) : Reads g.caseBody d (sequence w body) body rest := by
  refine Iterates.reads ?_
  change Iterates _ d [] _ (([] : List Stmt).reverse ++ body) rest
  generalize ([] : List Stmt) = found
  induction body generalizing found with
  | nil =>
    rw [List.append_nil]
    refine Iterates.done ?_
    have hsep : isSeparator (front rest) = false := by
      obtain h | h | h := hend <;> rw [h] <;> rfl
    refine (reads_skipSeparators hsep).bind_nil ?_
    refine reads_peek.bind_nil ?_
    rw [show sequence w [] ++ rest = rest from rfl]
    obtain h | h | h := hend <;> rw [h] <;> exact .pure
  | cons stmt body ih =>
    have hstmt := h stmt (by simp)
    have hrest := ih (fun s hs => h s (by simp [hs])) (stmt :: found)
    rw [List.reverse_cons, List.append_assoc, List.singleton_append] at hrest
    rw [sequence, List.flatMap_cons]
    refine Iterates.more ?_ (by simp) hrest
    refine (reads_skipSeparators ?_).bind_nil ?_
    · rw [List.append_assoc]
      exact hstmt.isSeparator _
    refine reads_peek.bind_nil ?_
    have hstart := hstmt.front_append ([.mark .semicolon] ++ (sequence w body ++ rest))
    rw [← List.append_assoc] at hstart
    -- the statement starts with none of the lexemes that end a case
    split
    case h_5 => exact hstmt.statement.bind_last .pure
    all_goals
      rename_i heq
      rw [sequence] at hstart
      rw [heq] at hstart
      exact absurd hstart (by decide)

def caseLexemes (we : Expr → List Lexeme) (w : Stmt → List Lexeme) (c : Expr × List Stmt) :
    List Lexeme :=
  .keyword .caseKw :: (we c.1 ++ .mark .colon :: sequence w c.2)

def fallbackLexemes (w : Stmt → List Lexeme) (body : List Stmt) : List Lexeme :=
  .keyword .defaultKw :: .mark .colon :: sequence w body

/-- A selection is read back with its cases and its fallback. -/
theorem reads_select {we : Expr → List Lexeme} {cases : List (Expr × List Stmt)}
    {fallback : Option (List Stmt)} (he : g.Takes d ls e)
    (hc : ∀ c ∈ cases, g.Takes d (we c.1) c.1 ∧ ∀ stmt ∈ c.2, g.TakesStmt d (w stmt) stmt)
    (hf : ∀ body ∈ fallback, ∀ stmt ∈ body, g.TakesStmt d (w stmt) stmt) :
    Reads g.bodyOf d (.keyword .switchKw :: (parens ls ++
      braces (cases.flatMap (caseLexemes we w) ++ fallback.elim [] (fallbackLexemes w))))
      (.select e cases fallback) rest := by
  refine reads_bodyOf_keyword ?_
  refine reads_expectKeyword.bind_one ?_
  refine he.parenthesized.bind ?_
  refine (reads_skipNewlines rfl).bind_nil ?_
  refine reads_expectMark.bind_one ?_
  refine Iterates.reads ?_
  change Iterates _ d ([], none) _ (Stmt.select e (([] : List (Expr × List Stmt)).reverse ++ cases)
    fallback) rest
  generalize ([] : List (Expr × List Stmt)) = found
  rw [List.append_assoc]
  induction cases generalizing found with
  | nil =>
    rw [List.append_nil, List.flatMap_nil, List.nil_append]
    cases fallback with
    | none =>
      refine Iterates.done ?_
      refine (reads_skipSeparators rfl).bind_nil ?_
      refine reads_peek.bind_nil ?_
      exact reads_advance.bind_one .pure
    | some body =>
      have hbody := reads_caseBody (hf body rfl) (.inr (.inr rfl) :
        endsCase (front (.mark .rightBrace :: rest)))
      refine Iterates.more ((reads_skipSeparators rfl).bind_nil (reads_peek.bind_nil
        (reads_advance.bind_one (reads_expectMark.bind_one (hbody.bind_last .pure)))))
          (by simp [fallbackLexemes]) ?_
      refine Iterates.done ?_
      refine (reads_skipSeparators rfl).bind_nil ?_
      refine reads_peek.bind_nil ?_
      exact reads_advance.bind_one .pure
  | cons c cases ih =>
    have hrest := ih (fun c' hc' => hc c' (by simp [hc'])) (c :: found)
    rw [List.reverse_cons, List.append_assoc, List.singleton_append] at hrest
    obtain ⟨value, body⟩ := c
    obtain ⟨hvalue, hstmts⟩ := hc (value, body) (by simp)
    rw [List.flatMap_cons, List.append_assoc]
    refine Iterates.more ?_ (by simp [caseLexemes]) hrest
    refine (reads_skipSeparators rfl).bind_nil ?_
    refine reads_peek.bind_nil ?_
    refine reads_advance.bind_one ?_
    refine (hvalue.reads _ rfl).bind ?_
    refine reads_expectMark.bind_one ?_
    refine (reads_caseBody hstmts ?_).bind_last .pure
    cases cases with
    | nil => cases fallback <;> simp [fallbackLexemes, endsCase]
    | cons => exact .inl rfl

/-! ## Other statements -/

theorem reads_load {path : String} :
    Reads g.bodyOf d [.keyword .importKw, .text path] (.load path) rest := by
  refine reads_bodyOf_keyword ?_
  refine reads_expectKeyword.bind_one ?_
  refine reads_peek.bind_nil ?_
  exact reads_advance.bind_one .pure

theorem reads_raise (he : g.Takes d ls e) (hrest : (front rest).level = .lowest) :
    Reads g.bodyOf d (.keyword .throwKw :: ls) (.raise e) rest := by
  refine reads_bodyOf_keyword ?_
  refine reads_advance.bind_one ?_
  exact (he.reads _ hrest).bind_last .pure

theorem reads_returns (he : g.Takes d ls e) (hrest : (front rest).level = .lowest) :
    Reads g.bodyOf d (.keyword .returnKw :: ls) (.returns (some e)) rest := by
  refine reads_bodyOf_keyword ?_
  refine reads_advance.bind_one ?_
  refine reads_peek.bind_nil ?_
  have hends : (front (ls ++ rest)).endsStatement = false := by
    simp [Lexeme.endsStatement, he.isNewline, he.isEof, he.isMark (m := .semicolon) rfl,
      he.isMark (m := .rightBrace) rfl]
  rw [hends]
  exact (he.reads _ hrest).bind_last .pure

theorem reads_returns_none (hrest : (front rest).endsStatement = true) :
    Reads g.bodyOf d [.keyword .returnKw] (.returns none) rest := by
  refine reads_bodyOf_keyword ?_
  refine reads_advance.bind_one ?_
  refine reads_peek.bind_nil ?_
  rw [List.nil_append, hrest]
  exact .pure

theorem reads_breaks : Reads g.bodyOf d [.keyword .breakKw] .breaks rest :=
  reads_bodyOf_keyword (reads_advance.bind_one .pure)

theorem reads_continues : Reads g.bodyOf d [.keyword .continueKw] .continues rest :=
  reads_bodyOf_keyword (reads_advance.bind_one .pure)

end RouteScript.Grammar
