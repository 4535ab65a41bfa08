import RouteScript.Syntax.Program
import RouteScript.Proofs.Syntax.Progress

/-!
# Progress of the grammar

Every expression and every statement takes at least one token, whatever the tokens are. A construct
takes its first token before it reads what stands inside, so a grammar that makes progress on short
streams gives one that makes progress on streams with one more token.
-/

namespace RouteScript

/-- What stands inside a construct takes a token, on streams of fewer than `n` tokens. -/
structure Grammar.Progresses (g : Grammar) (n : Nat) : Prop where
  expression : ∀ level, (g.expression level).Takes n
  body : g.body.Takes n

namespace Grammar

open Parse

variable {g : Grammar} {n : Nat}

theorem keeps_terminator : terminator.Keeps n :=
  keeps_peek.bind fun _ => .ite keeps_advance (.ite (keeps_pure _) spends_unexpected)

/-- The end of a statement may be left out, so that nothing needs to be taken in. -/
theorem keeps_finish {stmt : Stmt} : (finish stmt).Keeps n :=
  .ite keeps_terminator (keeps_takeMark.bind fun _ => keeps_pure _)

theorem takes_parameter : parameter.Takes n := by
  refine keeps_peek.bind fun l => ?_
  refine spends_either (Keeps.map takes_expectName.keeps) (keeps_pure _) fun _ => ?_
  exact takes_expectVariable.bind_keeps fun _ => keeps_pure _

theorem takes_parameters : parameters.Takes n := by
  refine takes_expectMark.bind_keeps fun _ => keeps_loop fun found => ?_
  refine keeps_skipNewlines.bind fun _ => keeps_takeMark.bind fun _ => ?_
  refine .ite (turns_done _) ?_
  have hparameter : (do
      let p ← parameter
      return (.more (p :: found) : Round (List Parameter) (List Parameter))).Turns n :=
    takes_parameter.turns fun _ => keeps_pure _
  refine .ite hparameter ?_
  exact takes_expectMark.keeps.bind fun _ => keeps_skipNewlines.bind fun _ => hparameter

theorem takes_load : load.Takes n := by
  refine takes_expectKeyword.bind_keeps fun _ => keeps_peek.bind fun l => ?_
  split
  · exact keeps_advance.bind fun _ => keeps_pure _
  · exact spends_unexpected

theorem takes_package : package.Takes n := by
  refine takes_expectKeyword.bind_keeps fun _ => keeps_loop fun name => spends_peek fun t => ?_
  split
  · exact Spends.at (turns_done _)
  next hend =>
    refine spendsAt_advance (Keeps.turns_behind (keeps_pure _) fun heof => ?_)
    simp [heof, Lexeme.endsStatement, Lexeme.isEof] at hend

/-- Where the keyword is missing, the line ends before it are still in front. -/
theorem keeps_lineBreakThen {k : Keyword} : (lineBreakThen k).Keeps n := by
  intro d s _
  have hrest := s.isRest_dropWhile Lexeme.isNewline
  rw [lineBreakThen_apply]
  split
  · have htail := (Stream.isRest_tail _).trans hrest
    exact ⟨htail, htail.length_le⟩
  · exact ⟨.refl s, Nat.le_refl _⟩

namespace Progresses

variable (hg : g.Progresses n)

include hg

/-- Every statement takes in a token. -/
theorem takes_statement : g.statement.Takes n :=
  hg.body.bind_keeps fun _ => keeps_finish.bind fun _ => keeps_pure _

/-- A block makes progress with every statement and ends with its brace. -/
theorem keeps_blockRest {first : List Stmt} : (g.blockRest first).Keeps n := by
  refine keeps_loop fun stmts => ?_
  refine keeps_skipSeparators.bind fun _ => keeps_peek.bind fun l => ?_
  refine .ite (keeps_advance.bind fun _ => turns_done _) (.ite spends_unexpected ?_)
  exact hg.takes_statement.turns fun _ => keeps_pure _

theorem keeps_block : g.block.Keeps n :=
  keeps_skipNewlines.bind fun _ => takes_expectMark.keeps.bind fun _ => hg.keeps_blockRest

theorem takes_parenthesized : g.parenthesized.Takes (n + 1) := by
  refine takes_expectMark.bind fun _ => keeps_skipNewlines.bind fun _ => ?_
  refine (hg.expression _).keeps.bind fun _ => keeps_skipNewlines.bind fun _ => ?_
  exact takes_expectMark.keeps.bind fun _ => keeps_pure _

theorem keeps_items {close : Mark} {expected : String} : (g.items close expected).Keeps n := by
  refine keeps_loop fun found => ?_
  refine keeps_skipNewlines.bind fun _ => keeps_takeMark.bind fun _ => ?_
  refine .ite (turns_done _) ((hg.expression _).turns fun e => ?_)
  refine keeps_skipNewlines.bind fun _ => keeps_takeMark.bind fun _ => ?_
  refine .ite (keeps_pure _) (keeps_atMark.bind fun _ => ?_)
  exact .ite (keeps_pure _) spends_unexpected

theorem takes_arguments : g.arguments.Takes (n + 1) :=
  takes_expectMark.bind fun _ => hg.keeps_items

theorem keeps_mapRest {first : Expr} : (g.mapRest first).Keeps n := by
  refine keeps_loop fun state => ?_
  refine takes_expectMark.turns fun _ => keeps_skipNewlines.bind fun _ => ?_
  refine (hg.expression _).keeps.bind fun _ => keeps_skipNewlines.bind fun _ => ?_
  refine keeps_takeMark.bind fun _ => ?_
  refine spends_when keeps_skipNewlines (keeps_takeMark.bind fun _ => ?_)
  refine .ite (keeps_pure _) (keeps_peek.bind fun l => .ite spends_unexpected ?_)
  exact (hg.expression _).keeps.bind fun _ => keeps_pure _

theorem keeps_brace : g.brace.Keeps n := by
  refine keeps_skipNewlines.bind fun _ => keeps_takeMark.bind fun _ => ?_
  refine .ite (keeps_pure _) (keeps_peek.bind fun l => hg.body.keeps.bind fun first => ?_)
  refine keeps_atMark.bind fun colon => ?_
  split
  · exact hg.keeps_mapRest
  · exact keeps_finish.bind fun _ => hg.keeps_blockRest.bind fun _ => keeps_pure _

theorem keeps_branch : g.branch.Keeps n := by
  refine keeps_skipNewlines.bind fun _ => keeps_takeMark.bind fun _ => .ite ?_ ?_
  · refine hg.keeps_brace.bind fun e => ?_
    split <;> exact keeps_pure _
  · exact (hg.expression _).keeps.bind fun _ => keeps_pure _

theorem keeps_choice {condition : Expr} : (g.choice condition).Keeps n := by
  have halternative : ∀ consequence, (do
      expectMark .colon
      return Expr.choice condition consequence (← g.branch)).Keeps n := fun _ =>
    takes_expectMark.keeps.bind fun _ => hg.keeps_branch.bind fun _ => keeps_pure _
  refine keeps_atMark.bind fun _ => .ite (halternative none) ?_
  refine hg.keeps_branch.bind fun stmts => keeps_skipNewlines.bind fun _ => ?_
  exact halternative (some stmts)

theorem keeps_functionLiteral : g.functionLiteral.Keeps n := by
  refine keeps_peek.bind fun l => ?_
  refine spends_either takes_expectName.keeps (keeps_pure _) fun _ => ?_
  refine takes_parameters.keeps.bind fun _ => hg.keeps_block.bind fun _ => ?_
  exact keeps_pure _

theorem keeps_creation : g.creation.Keeps n := by
  refine takes_expectName.keeps.bind fun _ => keeps_atMark.bind fun _ => ?_
  exact spends_either hg.takes_arguments.inside.keeps (keeps_pure _) fun _ => keeps_pure _

/-! ## Expressions -/

/-- An operand that starts with a keyword takes in the keyword. -/
theorem takes_keywordOperand {k : Keyword} {t : Token} (ht : t.lexeme ≠ .eof) :
    (g.keywordOperand k t).SpendsAt t (n + 1) fun _ => 1 := by
  refine spendsAt_advance ?_
  split
  case h_7 => exact hg.keeps_creation.behind ht
  case h_8 => exact hg.keeps_functionLiteral.behind ht
  case h_9 =>
    exact Keeps.behind (hg.takes_arguments.inside.keeps.bind fun _ => keeps_pure _) ht
  case h_10 =>
    refine Keeps.behind (takes_expectMark.keeps.bind fun _ => ?_) ht
    refine (hg.expression _).keeps.bind fun _ => takes_expectMark.keeps.bind fun _ => ?_
    exact keeps_pure _
  case h_11 => exact spendsBehind_fail rfl rfl
  all_goals exact (keeps_pure _).behind ht

theorem takes_markOperand {m : Mark} {t : Token} (ht : t.lexeme ≠ .eof) :
    (g.markOperand m t).SpendsAt t (n + 1) fun _ => 1 := by
  unfold markOperand
  split
  next => exact hg.takes_parenthesized.at
  next => exact spendsAt_fail rfl rfl
  next => exact spendsAt_fail rfl rfl
  next =>
    refine spendsAt_advance ?_
    split
    next =>
      refine Keeps.behind (keeps_atKeyword.bind fun _ => .ite ?_ ?_) ht
      · exact keeps_advance.bind fun _ => keeps_pure _
      · exact takes_expectName.keeps.bind fun _ => keeps_pure _
    next => exact Keeps.behind ((hg.expression _).keeps.bind fun _ => keeps_pure _) ht
    next => exact Keeps.behind ((hg.expression _).keeps.bind fun _ => keeps_pure _) ht
    next => exact Keeps.behind (hg.keeps_items.bind fun _ => keeps_pure _) ht
    next => exact hg.keeps_brace.behind ht
    next => exact spendsBehind_fail rfl rfl

/-- Every operand takes in a token. -/
theorem takes_operand : g.operand.Takes (n + 1) := by
  refine spends_token fun t => ?_
  split
  next h => exact spendsAt_advance ((keeps_pure _).behind (by simp [h]))
  next h => exact spendsAt_advance ((keeps_pure _).behind (by simp [h]))
  next h => exact spendsAt_advance ((keeps_pure _).behind (by simp [h]))
  next h => exact spendsAt_advance ((keeps_pure _).behind (by simp [h]))
  next h => exact hg.takes_keywordOperand (by simp [h])
  next h => exact hg.takes_markOperand (by simp [h])
  next => exact spendsAt_advance (spendsBehind_fail rfl rfl)
  next => exact spendsAt_fail rfl rfl
  next => exact spendsAt_fail rfl rfl

theorem takes_extend {left : Expr} : (g.extend left).Takes (n + 1) := by
  refine spends_token fun t => ?_
  split
  -- The arguments of a call take the parenthesis themselves.
  next => exact Spends.at (hg.takes_arguments.bind fun _ => keeps_pure _)
  next m h =>
    have ht : t.lexeme ≠ .eof := by simp [h]
    refine spendsAt_advance ?_
    split
    next =>
      refine SpendsBehind.ite_fail (Keeps.behind (keeps_skipNewlines.bind fun _ => ?_) ht) rfl rfl
      exact (hg.expression _).keeps.bind fun _ => keeps_pure _
    next => exact hg.keeps_choice.behind ht
    next =>
      refine Keeps.behind (keeps_skipNewlines.bind fun _ => keeps_atMark.bind fun _ => ?_) ht
      refine spends_either (keeps_pure _) (Keeps.map (hg.expression _).keeps) fun key => ?_
      refine keeps_skipNewlines.bind fun _ => takes_expectMark.keeps.bind fun _ => ?_
      exact keeps_pure _
    next => exact Keeps.behind (takes_expectName.keeps.bind fun _ => keeps_pure _) ht
    next => exact Keeps.behind (takes_expectName.keeps.bind fun _ => keeps_pure _) ht
    next => exact Keeps.behind (takes_expectName.keeps.bind fun _ => keeps_pure _) ht
    next => exact .ite_fail ((keeps_pure _).behind ht) rfl rfl
    next => exact .ite_fail ((keeps_pure _).behind ht) rfl rfl
    next =>
      split
      · refine Keeps.behind (keeps_skipNewlines.bind fun _ => ?_) ht
        exact (hg.expression _).keeps.bind fun _ => keeps_pure _
      · exact spendsBehind_fail rfl rfl
  next => exact spendsAt_fail rfl rfl

/-- An expression takes in at least its operand. -/
theorem takes_climb {level : Level} : (g.climb level).Takes (n + 1) := by
  refine hg.takes_operand.bind fun first => keeps_loop fun left => ?_
  refine keeps_peek.bind fun l => .ite ?_ (turns_done _)
  exact Takes.turns hg.takes_extend.inside fun _ => keeps_pure _

/-- Every expression takes in a token, with as many steps as there are tokens. -/
theorem takes_expressionOf {level : Level} : (g.expressionOf level).Takes (n + 1) := by
  refine keeps_depth.bind fun d => .ite ?_ hg.takes_climb.nested
  exact spends_token fun t => spendsAt_fail rfl rfl

/-! ## Statements -/

theorem keeps_initializer : g.initializer.Keeps n := by
  refine keeps_takeMark.bind fun _ => .ite ?_ (keeps_pure _)
  exact Keeps.map (hg.expression _).keeps

theorem takes_declaration : g.declaration.Takes (n + 1) := by
  refine takes_expectName.bind fun _ => takes_expectVariable.keeps.bind fun _ => ?_
  exact hg.keeps_initializer.bind fun _ => keeps_pure _

theorem takes_functionDecl : g.functionDecl.Takes (n + 1) := by
  -- Whatever the first token is, the parameters start with a parenthesis.
  refine keeps_atKeyword.bind fun isInit => keeps_advance.bind fun _ => ?_
  refine spends_either keeps_atMark (keeps_pure _) fun nameless => ?_
  refine spends_either (keeps_pure _) takes_expectName.keeps fun name => ?_
  exact takes_parameters.bind fun _ => hg.keeps_block.bind fun _ => keeps_pure _

theorem takes_property {typeName : Option String} : (g.property typeName).Takes (n + 1) := by
  refine takes_expectVariable.bind fun _ => hg.keeps_initializer.bind fun _ => ?_
  exact keeps_terminator.bind fun _ => keeps_pure _

theorem keeps_members {name : String} {parent : Option String} :
    (g.members name parent).Keeps n := by
  refine keeps_loop fun state => keeps_skipSeparators.bind fun _ => spends_peek fun t => ?_
  split
  next h => exact Spends.at (keeps_advance.bind fun _ => turns_done _)
  next => exact Spends.at (Takes.turns hg.takes_functionDecl.inside fun _ => keeps_pure _)
  next => exact Spends.at (Takes.turns hg.takes_functionDecl.inside fun _ => keeps_pure _)
  next word h =>
    split
    next => exact spendsAt_advance (Keeps.turns_behind (keeps_pure _) (by simp [h]))
    next =>
      refine Spends.at (keeps_peekSecond.bind fun _ => .ite ?_ spends_unexpected)
      refine takes_expectName.turns fun _ => ?_
      exact hg.takes_property.inside.keeps.bind fun _ => keeps_pure _
  next => exact Spends.at (Takes.turns hg.takes_property.inside fun _ => keeps_pure _)
  next => exact spends_unexpected.at
  next => exact spends_unexpected.at

theorem takes_classDef : g.classDef.Takes (n + 1) := by
  refine takes_expectKeyword.bind fun _ => takes_expectName.keeps.bind fun name => ?_
  -- The members are read in the same way with a parent and without one.
  have hmembers : ∀ parent, (do
      skipNewlines
      expectMark .leftBrace
      return Stmt.classDef (← g.members name parent)).Keeps n := fun _ =>
    keeps_skipNewlines.bind fun _ => takes_expectMark.keeps.bind fun _ =>
      hg.keeps_members.bind fun _ => keeps_pure _
  refine keeps_atKeyword.bind fun _ => .ite (keeps_advance.bind fun _ => ?_) (hmembers none)
  exact Keeps.bind (Keeps.map takes_expectName.keeps) hmembers

theorem takes_forEach : g.forEach.Takes (n + 1) := by
  refine takes_expectKeyword.bind fun _ => takes_expectMark.keeps.bind fun _ => ?_
  refine (hg.expression _).keeps.bind fun iterable => takes_expectKeyword.keeps.bind fun _ => ?_
  refine takes_expectVariable.keeps.bind fun first => keeps_takeMark.bind fun _ => ?_
  have hbody : ∀ key value, (do
      expectMark .rightParen
      return Stmt.forEach iterable key value (← g.block)).Keeps n := fun _ _ =>
    takes_expectMark.keeps.bind fun _ => hg.keeps_block.bind fun _ => keeps_pure _
  refine .ite (takes_expectVariable.keeps.bind fun value => ?_) (hbody none first)
  exact hbody (some first) value

theorem takes_whileLoop : g.whileLoop.Takes (n + 1) := by
  refine takes_expectKeyword.bind fun _ => hg.takes_parenthesized.inside.keeps.bind fun _ => ?_
  exact hg.keeps_block.bind fun _ => keeps_pure _

theorem takes_doWhile : g.doWhile.Takes (n + 1) := by
  refine takes_expectKeyword.bind fun _ => hg.keeps_block.bind fun _ => ?_
  refine keeps_skipNewlines.bind fun _ => takes_expectKeyword.keeps.bind fun _ => ?_
  exact hg.takes_parenthesized.inside.keeps.bind fun _ => keeps_pure _

theorem takes_tryCatch : g.tryCatch.Takes (n + 1) := by
  refine takes_expectKeyword.bind fun _ => hg.keeps_block.bind fun _ => ?_
  refine keeps_skipNewlines.bind fun _ => takes_expectKeyword.keeps.bind fun _ => ?_
  refine takes_expectMark.keeps.bind fun _ => keeps_takeMark.bind fun _ => ?_
  refine takes_expectName.keeps.bind fun _ => takes_expectMark.keeps.bind fun _ => ?_
  exact hg.keeps_block.bind fun _ => keeps_pure _

theorem takes_branchOn : g.branchOn.Takes (n + 1) := by
  refine takes_expectKeyword.bind fun _ => hg.takes_parenthesized.inside.keeps.bind fun _ => ?_
  refine hg.keeps_block.bind fun _ => keeps_lineBreakThen.bind fun _ => ?_
  refine .ite (keeps_atKeyword.bind fun _ => .ite ?_ ?_) (keeps_pure _)
  · exact hg.body.keeps.bind fun _ => keeps_pure _
  · exact Keeps.bind (hg.keeps_block.map) fun _ => keeps_pure _

theorem keeps_caseBody : g.caseBody.Keeps n := by
  refine keeps_loop fun stmts => keeps_skipSeparators.bind fun _ => keeps_peek.bind fun l => ?_
  split
  case h_4 => exact spends_unexpected
  case h_5 => exact hg.takes_statement.turns fun _ => keeps_pure _
  all_goals exact turns_done _

theorem takes_select : g.select.Takes (n + 1) := by
  refine takes_expectKeyword.bind fun _ => hg.takes_parenthesized.inside.keeps.bind fun _ => ?_
  refine keeps_skipNewlines.bind fun _ => takes_expectMark.keeps.bind fun _ => ?_
  refine keeps_loop fun state => keeps_skipSeparators.bind fun _ => spends_peek fun t => ?_
  split
  next => exact Spends.at (keeps_advance.bind fun _ => turns_done _)
  next h =>
    refine spendsAt_advance (Keeps.turns_behind ?_ (by simp [h]))
    refine (hg.expression _).keeps.bind fun _ => takes_expectMark.keeps.bind fun _ => ?_
    exact hg.keeps_caseBody.bind fun _ => keeps_pure _
  next h =>
    refine spendsAt_advance (Keeps.turns_behind ?_ (by simp [h]))
    refine takes_expectMark.keeps.bind fun _ => hg.keeps_caseBody.bind fun _ => ?_
    exact keeps_pure _
  next => exact spends_unexpected.at

theorem takes_keywordBody {k : Keyword} {second : Lexeme} {t : Token} (ht : t.lexeme ≠ .eof) :
    (g.keywordBody k second).SpendsAt t (n + 1) fun _ => 1 := by
  unfold keywordBody
  have hexpression : (do return Stmt.expr (← g.expressionOf .lowest)).Takes (n + 1) :=
    hg.takes_expressionOf.bind_keeps fun _ => keeps_pure _
  have hfunction : (do return Stmt.functionDef (← g.functionDecl)).Takes (n + 1) :=
    hg.takes_functionDecl.bind_keeps fun _ => keeps_pure _
  have hinner {f : Expr → Stmt} : (do
      advance
      return f (← g.expression .lowest)).SpendsAt t (n + 1) fun _ => 1 :=
    spendsAt_advance (Keeps.behind ((hg.expression _).keeps.bind fun _ => keeps_pure _) ht)
  split
  next => exact hg.takes_classDef.at
  next => exact hfunction.at
  next => exact hg.takes_forEach.at
  next => exact takes_load.at
  next => exact takes_package.at
  next => exact hg.takes_whileLoop.at
  next => exact hg.takes_doWhile.at
  next => exact hg.takes_tryCatch.at
  next => exact hg.takes_branchOn.at
  next => exact hg.takes_select.at
  next => exact hinner
  next =>
    refine spendsAt_advance (Keeps.behind (keeps_peek.bind fun _ => .ite (keeps_pure _) ?_) ht)
    exact (hg.expression _).keeps.bind fun _ => keeps_pure _
  next => exact spendsAt_advance ((keeps_pure _).behind ht)
  next => exact spendsAt_advance ((keeps_pure _).behind ht)
  next => exact (Spends.ite hfunction hexpression).at
  next =>
    split
    · exact hexpression.at
    · exact hinner
  next =>
    split
    · exact hexpression.at
    · exact hinner
  next => exact hexpression.at

/-- Every statement takes in a token before its end. -/
theorem takes_bodyOf : g.bodyOf.Takes (n + 1) := by
  refine spends_peek fun t => spendsAt_peekSecond fun second => ?_
  split
  next k _ h => exact hg.takes_keywordBody (by simp [h])
  next => exact hg.takes_declaration.at
  next => exact Spends.at (hg.takes_expressionOf.bind_keeps fun _ => keeps_pure _)

end Progresses

def within (n : Nat) : Grammar := ⟨expressionWithin n, bodyWithin n⟩

/-- A budget above the number of tokens is never used up. -/
theorem progresses_within (n : Nat) : (within n).Progresses n := by
  induction n with
  | zero =>
    constructor
    · intro level d s hs
      exact absurd hs (Nat.not_lt_zero _)
    · intro d s hs
      exact absurd hs (Nat.not_lt_zero _)
  | succ n ih =>
    constructor
    · intro level d s hs
      change (expressionWithin (n + 1) level d s).Fits s _
      rw [expressionWithin]
      exact ih.takes_expressionOf d s hs
    · intro d s hs
      change (bodyWithin (n + 1) d s).Fits s _
      rw [bodyWithin]
      exact ih.takes_bodyOf d s hs

end Grammar

end RouteScript
