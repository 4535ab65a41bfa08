import RouteScript.Proofs.Syntax.Coverage
import RouteScript.Proofs.Syntax.Resumption
import RouteScript.Proofs.Syntax.Spelled
import RouteScript.Proofs.Token.Tiling

/-!
# Reading what has been written

Main statements: an expression written with sparse parentheses, and a program written with full
ones, are read back as they are.
-/

namespace RouteScript

open Parse Grammar

variable {style : Style} {stmt : Stmt} {s : Stream} {rest : List Lexeme}

/-! ## Streams -/

/-- A list of tokens up to its only end. -/
theorem Stream.lexemes_ofTokens {tokens : List Token} {ls : List Lexeme}
    (h : tokens.map Token.lexeme = ls ++ [.eof]) (hls : ls.all (!·.isEof) = true) :
    (Stream.ofTokens tokens).lexemes = ls := by
  have htake : (Stream.ofTokens tokens).lexemes =
      (tokens.map Token.lexeme).takeWhile (!·.isEof) := by
    rw [List.takeWhile_map]
    rfl
  rw [htake, h, List.takeWhile_append_of_pos (List.all_eq_true.mp hls)]
  simp [Lexeme.isEof]

theorem Stream.tokens_eq_nil {s : Stream} (h : s.lexemes = []) : s = ⟨[], s.stop⟩ := by
  obtain ⟨tokens, stop⟩ := s
  simp only [Stream.lexemes, List.map_eq_nil_iff] at h
  rw [h]

theorem Stream.drop_eq_nil {s : Stream} {ls : List Lexeme} (h : s.lexemes = ls) :
    s.drop ls.length = ⟨[], s.stop⟩ :=
  Stream.tokens_eq_nil (by simp [h])

/-- At the start of a statement there is nothing to pass over. -/
theorem Stream.statements_of_ok {s rest : Stream} (n : Nat)
    (hs : (front s.lexemes).startsStatement = true) (h : s.statement = .ok stmt rest) :
    s.statements (n + 1) =
      { rest.statements n with statements := stmt :: (rest.statements n).statements } := by
  obtain ⟨tokens, stop⟩ := s
  cases tokens with
  | nil => simp [Stream.lexemes, Lexeme.startsStatement, Lexeme.isEof] at hs
  | cons t ts =>
    have hfront : t.lexeme.startsStatement = true := hs
    have hskip : isSeparator t.lexeme = false := by
      simp_all [Lexeme.startsStatement]
    simp only [Stream.statements, Stream.dropWhile, List.dropWhile_cons, hskip, Bool.false_eq_true, if_false,
      List.isEmpty_cons, h]

theorem Stream.statements_of_nil (n : Nat) (h : s.lexemes = []) : s.statements n = ⟨[], []⟩ := by
  rw [Stream.tokens_eq_nil h]
  cases n <;> rfl

/-- A statement in front, with its semicolon. -/
theorem Stream.statement_of_lexemes (hp : stmt.passes style.check = true)
    (hd : 2 * stmt.height + 2 ≤ maxDepth)
    (hs : s.lexemes = (stmt.lexemes style ++ [.mark .semicolon]) ++ rest) :
    s.statement = .ok stmt (s.drop (stmt.lexemes style ++ [Lexeme.mark .semicolon]).length) := by
  have hlen : (stmt.lexemes style).length ≤ s.length + 1 := by
    rw [← s.length_lexemes, hs, List.length_append, List.length_append]
    omega
  have htakes : (Grammar.ofLength s.length).TakesStmt 0 (stmt.lexemes style) stmt :=
    ⟨Stmt.front_lexemes hp, fun _ => (Covers.within style _).stmt hlen hp (by omega)⟩
  exact htakes.statement s hs

/-- A simple statement with nothing behind it. -/
theorem Stream.statement_of_body {ls : List Lexeme} (hs : s.lexemes = ls)
    (hsimple : stmt.isSimple = true)
    (h : Reads (Grammar.ofLength s.length).body 0 ls stmt []) :
    s.statement = .ok stmt ⟨[], s.stop⟩ := by
  have hend : Reads (finish stmt) 0 [] () [] := by
    rw [finish, if_pos hsimple]
    exact reads_peek.bind_nil .pure
  have hstatement : Reads (Grammar.ofLength s.length).statement 0 ls stmt [] :=
    h.bind_last (hend.bind_last .pure)
  rw [← Stream.drop_eq_nil hs]
  exact hstatement s (by rw [hs, List.append_nil])

/-- An expression with nothing behind it. -/
theorem Stream.statement_of_expr {e : Expr} (hp : e.passes style.check = true)
    (hd : 2 * e.height + 2 ≤ maxDepth) (hs : s.lexemes = e.placed style 0) :
    s.statement = .ok (.expr e) ⟨[], s.stop⟩ := by
  have hlen : (e.placed style 0).length ≤ s.length + 1 := by
    rw [← s.length_lexemes, hs]
    omega
  exact Stream.statement_of_body hs rfl ((Covers.within style _).first hlen hp (by omega) rfl)

/-- A source text of one simple statement. -/
theorem Program.ofSource_of_body {source : String} {ls : List Lexeme}
    (htokens : (Token.tokenize source).map Token.lexeme = ls ++ [.eof])
    (hstart : (front ls).startsStatement = true) (hsimple : stmt.isSimple = true)
    (h : Reads (Grammar.ofLength ls.length).body 0 ls stmt []) :
    Program.ofSource source = .ok ⟨[stmt]⟩ := by
  have hs : (Stream.ofTokens (Token.tokenize source)).lexemes = ls :=
    Stream.lexemes_ofTokens htokens (Token.not_isEof_of_tokenize htokens)
  have hstatement : (Stream.ofTokens (Token.tokenize source)).statement =
      .ok stmt ⟨[], (Stream.ofTokens (Token.tokenize source)).stop⟩ := by
    refine Stream.statement_of_body hs hsimple ?_
    rwa [← Stream.length_lexemes, hs]
  have hread : Reading.ofSource source = ⟨[stmt], []⟩ := by
    rw [Reading.ofSource_eq, Stream.read, Stream.statements_of_ok _ (by rwa [hs]) hstatement,
      Stream.statements_of_nil _ rfl]
  simp [Program.ofSource, hread]

/-- A source whose tokens spell an expression is parsed to it. -/
theorem Program.ofSource_of_expr {source : String} {e : Expr} (hp : e.passes style.check = true)
    (hd : 2 * e.height + 2 ≤ maxDepth)
    (htokens : (Token.tokenize source).map Token.lexeme = e.placed style 0 ++ [.eof]) :
    Program.ofSource source = .ok ⟨[.expr e]⟩ := by
  have hstart : (front (e.placed style 0)).startsOperand = true := by
    simpa using Expr.front_placed hp []
  exact Program.ofSource_of_body htokens (Lexeme.startsStatement_of_startsOperand hstart) rfl
    ((Covers.within style _).first (Nat.le_succ _) hp (by omega) rfl)

/-! ## Expressions -/

/-- An expression that is written with parentheses only where the binding levels ask for them is
read back, and nothing is left. -/
theorem Expr.read_sparse (e : Expr) (hplain : e.passes plainCheck = true) (hheight : e.height < 200)
    (tokens : List Token) (htokens : tokens.map Token.lexeme = e.lexemes .sparse ++ [.eof]) :
    (Stream.ofTokens tokens).statement = .ok (.expr e) ⟨[], (Stream.ofTokens tokens).stop⟩ ∧
      (Stream.ofTokens tokens).read = ⟨[.expr e], []⟩ := by
  have hlexemes : (Stream.ofTokens tokens).lexemes = e.lexemes .sparse :=
    Stream.lexemes_ofTokens htokens (Expr.all_lexemes (Admits.isEof plainCheck) .sparse e hplain)
  have hpass : e.passes Style.sparse.check = true := hplain
  have hstatement : (Stream.ofTokens tokens).statement =
      .ok (.expr e) ⟨[], (Stream.ofTokens tokens).stop⟩ :=
    Stream.statement_of_expr hpass (by simp only [maxDepth]; omega) hlexemes
  refine ⟨hstatement, ?_⟩
  have hstart : (front (e.placed .sparse 0 ++ [])).startsOperand = true :=
    Expr.front_placed hpass []
  rw [Stream.read, Stream.statements_of_ok _ _ hstatement, Stream.statements_of_nil _ rfl]
  rw [hlexemes]
  rw [List.append_nil] at hstart
  exact Lexeme.startsStatement_of_startsOperand hstart

/-- The expression `$a = -$b % (1 + 2) ? : $f(this)`. -/
theorem Expr.read_sparse_assignment :
    let e : Expr := .assign (.name "a") (.choice (.binary (.unary .negate (.name "b")) .modulo
      (.binary (.int 1) .add (.int 2))) none [.expr (.call (.name "f") [.this])])
    (Stream.ofTokens ((e.lexemes .sparse ++ [Lexeme.eof]).map (⟨·, Position.start⟩))).read =
      ⟨[.expr e], []⟩ :=
  (Expr.read_sparse _ (by decide) (by decide) _ rfl).2

/-! ## Programs -/

theorem Stmt.length_le_lexemesAll (style : Style) (stmts : List Stmt) :
    stmts.length ≤ (Stmt.lexemesAll style stmts).length := by
  induction stmts with
  | nil => exact Nat.le_refl _
  | cons stmt stmts ih =>
    rw [Stmt.lexemesAll, List.length_append, List.length_cons, List.length_cons]
    omega

/-- Statements that are written one after the other are read back one after the other. -/
theorem Stream.statements_sequence {stmts : List Stmt} {n : Nat}
    (hp : Stmt.allPass style.check stmts = true) (hd : 2 * Stmt.heights stmts + 2 ≤ maxDepth)
    (hs : s.lexemes = Stmt.lexemesAll style stmts) (hn : stmts.length ≤ n) :
    s.statements n = ⟨stmts, []⟩ := by
  induction stmts generalizing s n with
  | nil => exact Stream.statements_of_nil n hs
  | cons stmt stmts ih =>
    obtain ⟨n, rfl⟩ : ∃ k, n = k + 1 := ⟨n - 1, by simp at hn; omega⟩
    simp only [Stmt.allPass, Bool.and_eq_true, Stmt.heights, List.length_cons] at hp hd hn
    rw [Stmt.lexemesAll, ← List.singleton_append, ← List.append_assoc] at hs
    have hstatement := Stream.statement_of_lexemes hp.1 (by omega) hs
    have hdrop : (s.drop (stmt.lexemes style ++ [Lexeme.mark .semicolon]).length).lexemes =
        Stmt.lexemesAll style stmts := by
      rw [Stream.lexemes_drop, hs, List.drop_left]
    have hrest := ih (n := n) hp.2 (by omega) hdrop (by omega)
    rw [Stream.statements_of_ok n ?_ hstatement, hrest]
    rw [hs, List.append_assoc, front_append_of_ne_nil (Stmt.lexemes_ne_nil hp.1)]
    exact Stmt.front_lexemes hp.1

/-- A program that is not too deep is read back from its tokens. -/
theorem Stream.read_program {program : Program}
    (hp : Stmt.allPass programCheck program.statements = true)
    (hheight : Stmt.heights program.statements < 150) {tokens : List Token}
    (htokens : tokens.map Token.lexeme = Stmt.lexemesAll .full program.statements ++ [.eof]) :
    (Stream.ofTokens tokens).read = ⟨program.statements, []⟩ := by
  have hlexemes : (Stream.ofTokens tokens).lexemes = Stmt.lexemesAll .full program.statements :=
    Stream.lexemes_ofTokens htokens
      (Stmt.all_lexemesAll (Admits.isEof programCheck) .full program.statements hp)
  have hpass : Stmt.allPass Style.full.check program.statements = true := hp
  refine Stream.statements_sequence hpass (by simp only [maxDepth]; omega) hlexemes ?_
  have hlen := Stmt.length_le_lexemesAll .full program.statements
  rw [← hlexemes, Stream.length_lexemes] at hlen
  omega

/-- A program that is written with parentheses around every expression, braces around every block
and a semicolon behind every statement is read back, with nothing to complain about: its tokens are
read as its statements, and its source text as the program. -/
theorem Program.read_full (program : Program)
    (hp : Stmt.allPass programCheck program.statements = true)
    (hheight : Stmt.heights program.statements < 150) :
    (∀ tokens : List Token,
      tokens.map Token.lexeme = Stmt.lexemesAll .full program.statements ++ [.eof] →
      (Stream.ofTokens tokens).read = ⟨program.statements, []⟩) ∧
    Program.ofSource (Lexeme.source (Stmt.lexemesAll .full program.statements)) = .ok program := by
  refine ⟨fun _ htokens => Stream.read_program hp hheight htokens, ?_⟩
  have hspelled := Stmt.all_lexemesAll Admits.isSpelled .full program.statements hp
  have hread := Stream.read_program hp hheight
    (Token.lexemes_tokenize_source (List.all_eq_true.mp hspelled))
  simp [Program.ofSource, Reading.ofSource_eq, hread]

/-- A class with a method that returns a map, and a choice between a block and a map. -/
theorem Program.read_full_class :
    let program : Program := ⟨[
      .classDef ⟨"Point", none, [⟨"x", some "int", some (.int 0)⟩],
        [⟨"pair", [⟨"y", none⟩], some [.returns (some (.map [(.text "x", .name "y")]))], false⟩]⟩,
      .expr (.choice (.name "p") (some [.declare "int" "k" none, .expr (.name "k")])
        [.expr (.map [])])]⟩
    Program.ofSource (Lexeme.source (Stmt.lexemesAll .full program.statements)) = .ok program :=
  (Program.read_full _ (by decide) (by decide)).2

end RouteScript
