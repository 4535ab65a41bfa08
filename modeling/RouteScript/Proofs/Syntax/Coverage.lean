import RouteScript.Proofs.Syntax.Climbing
import RouteScript.Proofs.Syntax.Placement

/-!
# Grammars that cover written trees

`Covers` says that a grammar reads every tree whose written form has at most `n` lexemes. The
readers built on such a grammar cover one lexeme more, so the readers with `n` levels cover `n`
lexemes.
-/

namespace RouteScript

namespace Grammar

open Parse

/-- The grammar reads every tree that the style can write with at most `n` lexemes, as long as it is
not nested too deep. An expression takes up two depths, one for its parentheses. -/
structure Covers (g : Grammar) (style : Style) (n : Nat) : Prop where
  /-- Expressions at a place. -/
  expr {level : Level} {least d : Nat} {e : Expr} {rest : List Lexeme} (hslot : Slot level least)
    (hn : (e.placed style least).length ≤ n) (hp : e.passes style.check = true)
    (hd : d + 2 * e.height + 2 ≤ maxDepth) (hrest : (front rest).level.rank ≤ level.rank) :
    Reads (g.expression level) d (e.placed style least) e rest
  /-- Expressions whose parentheses are read by what they stand in. -/
  inside {d : Nat} {e : Expr} {rest : List Lexeme} (hn : (e.lexemes style).length ≤ n)
    (hp : e.passes style.check = true) (hd : d + 2 * e.height + 1 ≤ maxDepth)
    (hrest : (front rest).level = .lowest) :
    Reads (g.expression .lowest) d (e.lexemes style) e rest
  /-- Statements that are expressions; something else than a semicolon may stand behind them. -/
  first {d : Nat} {e : Expr} {rest : List Lexeme} (hn : (e.placed style 0).length ≤ n)
    (hp : e.passes style.check = true) (hd : d + 2 * e.height + 2 ≤ maxDepth)
    (hrest : (front rest).level = .lowest) : Reads g.body d (e.placed style 0) (.expr e) rest
  /-- Statements before a semicolon. -/
  stmt {d : Nat} {stmt : Stmt} {rest : List Lexeme} (hn : (stmt.lexemes style).length ≤ n)
    (hp : stmt.passes style.check = true) (hd : d + 2 * stmt.height + 2 ≤ maxDepth) :
    Reads g.body d (stmt.lexemes style) stmt (.mark .semicolon :: rest)

namespace Covers

variable {g : Grammar} {style : Style} {n d least : Nat} {level : Level} {e : Expr}
  {rest : List Lexeme}

/-! ## What a covering grammar takes -/

/-- A covered expression is taken in wherever it has room. -/
theorem takes (hg : g.Covers style n) (hn : (e.placed style 0).length ≤ n)
    (hp : e.passes style.check = true) (hd : d + 2 * e.height + 2 ≤ maxDepth) :
    g.Takes d (e.placed style 0) e where
  starts := by
    have hstart : (front (e.placed style 0 ++ [])).startsOperand = true := Expr.front_placed hp []
    rwa [List.append_nil] at hstart
  reads rest hrest := hg.expr .alone hn hp hd (Nat.le_of_eq (congrArg Level.rank hrest))
  body rest hrest := hg.first hn hp hd hrest

theorem takesEach (hg : g.Covers style n) {es : List Expr}
    (hn : (commas (es.map (Expr.placed style 0))).length ≤ n)
    (hp : Expr.allPass style.check es = true) (hd : d + 2 * Expr.heights es + 2 ≤ maxDepth) :
    ∀ e ∈ es, g.Takes d (e.placed style 0) e := by
  intro e he
  have hlen := length_le_commas (List.mem_map_of_mem (f := Expr.placed style 0) he)
  have hheight := Expr.height_le_heights he
  exact hg.takes (by omega) (Expr.allPass_eq_true.mp hp e he) (by omega)

theorem takesPairs (hg : g.Covers style n) {pairs : List (Expr × Expr)}
    (hn : (commas (pairs.map fun p =>
      p.1.placed style 0 ++ .mark .colon :: p.2.placed style 0)).length ≤ n)
    (hp : Expr.pairsPass style.check pairs = true)
    (hd : d + 2 * Expr.pairHeights pairs + 2 ≤ maxDepth) :
    ∀ p ∈ pairs, g.Takes d (p.1.placed style 0) p.1 ∧ g.Takes d (p.2.placed style 0) p.2 := by
  intro p hmem
  have hlen := length_le_commas (List.mem_map_of_mem (f := fun p : Expr × Expr =>
    p.1.placed style 0 ++ .mark .colon :: p.2.placed style 0) hmem)
  rw [List.length_append, List.length_cons] at hlen
  have hheight := Expr.height_le_pairHeights hmem
  have hpass := Expr.pairsPass_eq_true.mp hp p hmem
  rw [Bool.and_eq_true] at hpass
  exact ⟨hg.takes (by omega) hpass.1 (by omega), hg.takes (by omega) hpass.2 (by omega)⟩

theorem takesStmts (hg : g.Covers style n) {stmts : List Stmt}
    (hn : (sequence (Stmt.lexemes style) stmts).length ≤ n)
    (hp : Stmt.allPass style.check stmts = true) (hd : d + 2 * Stmt.heights stmts + 2 ≤ maxDepth) :
    ∀ stmt ∈ stmts, g.TakesStmt d (stmt.lexemes style) stmt := by
  intro stmt hmem
  have hlen := length_le_sequence (w := Stmt.lexemes style) hmem
  have hheight := Stmt.height_le_heights hmem
  have hpass := Stmt.allPass_eq_true.mp hp stmt hmem
  exact ⟨Stmt.front_lexemes hpass, fun _ => hg.stmt (by omega) hpass (by omega)⟩

/-- A branch of a choice; it does not start with a colon. -/
theorem reads_branch (hg : g.Covers style n) {body : List Stmt}
    (hb : style.allowsBranch body = true) (hn : (Stmt.branchLexemes style body).length ≤ n)
    (hp : Stmt.allPass style.check body = true) (hd : d + 2 * Stmt.heights body + 2 ≤ maxDepth) :
    (∀ rest, (front rest).level = .lowest →
      Reads g.branch d (Stmt.branchLexemes style body) body rest) ∧
      ∀ rest, (front (Stmt.branchLexemes style body ++ rest)).isMark .colon = false := by
  cases style with
  | sparse =>
    obtain ⟨e, rfl⟩ := eq_expr_of_isSingle hb
    have hpass : e.passes plainCheck = true := by
      simpa [Stmt.passes, Style.check, plainCheck] using hp
    have htakes : g.Takes d (e.placed .sparse 0) e :=
      hg.takes hn hpass (by simpa [Stmt.heights, Stmt.height] using hd)
    exact ⟨fun _ hrest => reads_branch_expr htakes hrest, fun rest => htakes.isMark rfl rest⟩
  | full =>
    have hne : body ≠ [] := by
      rintro rfl
      exact absurd hb (by decide)
    rw [Stmt.branchLexemes_full hne, Stmt.lexemesAll_eq] at hn ⊢
    rw [length_braces] at hn
    exact ⟨fun _ _ => reads_branch_block hne (hg.takesStmts (by omega) hp hd), fun _ => rfl⟩

theorem takesCases (hg : g.Covers style n) {cases : List (Expr × List Stmt)}
    (hn : (cases.flatMap (caseLexemes (Expr.placed style 0) (Stmt.lexemes style))).length ≤ n)
    (hp : Stmt.casesPass style.check cases = true)
    (hd : d + 2 * Stmt.caseHeights cases + 2 ≤ maxDepth) :
    ∀ c ∈ cases, g.Takes d (c.1.placed style 0) c.1 ∧
      ∀ stmt ∈ c.2, g.TakesStmt d (stmt.lexemes style) stmt := by
  intro c hmem
  have hlen := length_le_flatMap (f := caseLexemes (Expr.placed style 0) (Stmt.lexemes style)) hmem
  simp only [caseLexemes, List.length_cons, List.length_append] at hlen
  have hheight := Stmt.height_le_caseHeights hmem
  have hpass := Stmt.casesPass_eq_true.mp hp c hmem
  rw [Bool.and_eq_true] at hpass
  exact ⟨hg.takes (by omega) hpass.1 (by omega), hg.takesStmts (by omega) hpass.2 (by omega)⟩

theorem takesProperties (hg : g.Covers style n) {ps : List PropertyDecl}
    (hplain : ∀ word ∈ ps.flatMap fun p => p.typeName.toList ++ [p.name], isPlainName word = true)
    (hn : (ps.flatMap (propertyLexemes (Expr.placed style 0))).length ≤ n)
    (hp : PropertyDecl.allPass style.check ps = true)
    (hd : d + 2 * PropertyDecl.heights ps + 2 ≤ maxDepth) :
    ∀ p ∈ ps, g.TakesProperty d (Expr.placed style 0) p := by
  intro p hmem
  have hlen := length_le_flatMap (f := propertyLexemes (Expr.placed style 0)) hmem
  simp only [propertyLexemes, propertyTail, List.length_cons, List.length_append] at hlen
  have hheight := PropertyDecl.height_le_heights hmem
  have hpass := PropertyDecl.allPass_eq_true.mp hp p hmem
  refine ⟨fun typeName htype => ?_, fun e he => ?_⟩
  · have hname := List.forall_mem_flatMap.mp hplain p hmem typeName
      (by simp [Option.mem_def.mp htype])
    exact ⟨ofWord?_of_isPlainName hname, isModifier_of_isPlainName hname⟩
  · obtain ⟨name, typeName, initial⟩ := p
    obtain rfl : initial = some e := he
    simp only [Option.elim, List.length_cons] at hlen
    exact hg.takes (by omega) hpass (by simp only [PropertyDecl.height] at hheight; omega)

theorem takesMethods (hg : g.Covers style n) {ms : List FunctionDecl}
    (hplain : ∀ word ∈ ms.flatMap fun m => m.name :: m.words, isPlainName word = true)
    (hbodies : ∀ m ∈ ms, m.body.isSome = true)
    (hn : (ms.flatMap (methodLexemes (Stmt.lexemes style))).length ≤ n)
    (hp : FunctionDecl.allPass style.check ms = true)
    (hd : d + 2 * FunctionDecl.heights ms + 2 ≤ maxDepth) :
    ∀ m ∈ ms, g.TakesMethod d (Stmt.lexemes style) m := by
  intro m hmem
  have hlen := length_le_flatMap (f := methodLexemes (Stmt.lexemes style)) hmem
  simp only [methodLexemes, functionTail, List.length_cons, List.length_append,
    length_braces] at hlen
  have hheight := FunctionDecl.height_le_heights hmem
  have hpass := FunctionDecl.allPass_eq_true.mp hp m hmem
  obtain ⟨hname, hwords⟩ := List.forall_mem_cons.mp (List.forall_mem_flatMap.mp hplain m hmem)
  obtain ⟨body, hbody⟩ := Option.isSome_iff_exists.mp (hbodies m hmem)
  refine ⟨ofWord?_of_isPlainName hname, m.isTyped_of_words hwords, body, hbody, ?_⟩
  obtain ⟨name, params, _, isInit⟩ := m
  subst hbody
  simp only [FunctionDecl.height, FunctionDecl.passes, Option.getD_some] at hheight hpass hlen
  exact hg.takesStmts (by omega) hpass (by omega)

/-! ## Expressions -/

/-- An expression in parentheses may be climbed from at every level. -/
theorem climbs_parens (hg : g.Covers style n) (hn : (e.lexemes style).length ≤ n)
    (hp : e.passes style.check = true) (hd : d + 2 * e.height + 1 ≤ maxDepth) :
    Climbs g level d (parens (e.lexemes style)) e rest :=
  .operand (reads_operand_parens (reads_parenthesized ((Expr.front_lexemes_inside hp).2 _)
    (hg.inside hn hp hd rfl)))

/-- Expressions that nothing behind them has extended. -/
theorem reads_operand (hg : g.Covers style n) (hn : (e.lexemes style).length ≤ n + 1)
    (hp : e.passes style.check = true) (hd : d + 2 * e.height ≤ maxDepth)
    (hgrown : e.isGrown = false) (hrest : (front rest).level.rank ≤ e.edge) :
    Reads g.operand d (e.lexemes style) e rest := by
  have hcheck := Expr.check_of_passes hp
  cases e with
  | int value => exact reads_operand_int
  | float value => exact reads_operand_float
  | text value => exact reads_operand_text
  | bool value => exact reads_operand_bool
  | nil => exact reads_operand_nil
  | this => exact reads_operand_this
  | name word =>
    rw [Expr.lexemes, Lexeme.ofWord_of_none (Style.ofWord?_of_name hcheck)]
    exact reads_operand_variable rfl rfl
  | create className arguments =>
    simp only [Expr.passes, Bool.and_eq_true, Expr.height] at hp hd
    simp only [Expr.lexemes, Expr.lexemesEach_eq, List.length_cons, length_parens] at hn ⊢
    exact reads_operand_create (Lexeme.word?_ofWord className)
      (hg.takesEach (by omega) hp.2 (by omega))
  | unary op operand =>
    simp only [Expr.passes, Bool.and_eq_true, Expr.height] at hp hd
    simp only [Expr.lexemes, Expr.enclose_eq, List.length_cons] at hn ⊢
    exact reads_operand_unary (hg.expr .under (by omega) hp.2 (by omega) hrest)
  | array items =>
    simp only [Expr.passes, Bool.and_eq_true, Expr.height] at hp hd
    simp only [Expr.lexemes, Expr.lexemesEach_eq, List.length_cons, List.length_append] at hn ⊢
    exact reads_operand_array (hg.takesEach (by omega) hp.2 (by omega))
  | map pairs =>
    simp only [Expr.passes, Bool.and_eq_true, Expr.height] at hp hd
    simp only [Expr.lexemes, Expr.pairLexemes_eq, length_braces] at hn ⊢
    exact reads_operand_brace (reads_brace_map (hg.takesPairs (by omega) hp.2 (by omega)))
  | block body =>
    simp only [Expr.passes, Bool.and_eq_true, Expr.height] at hp hd
    simp only [Expr.lexemes, Stmt.lexemesAll_eq, length_braces] at hn ⊢
    exact reads_operand_brace (reads_brace_block (Style.ne_nil_of_block hcheck)
      (hg.takesStmts (by omega) hp.2 (by omega)))
  | function decl =>
    obtain ⟨hwords, ⟨body, hbody⟩, hinit, hname⟩ := Style.words_of_function hcheck
    have hparams := decl.isTyped_of_words hwords
    obtain ⟨name, params, _, _⟩ := decl
    subst hbody hinit
    simp only [Expr.passes, FunctionDecl.passes, Bool.and_eq_true, Expr.height,
      FunctionDecl.height] at hp hd
    simp only [Expr.lexemes, FunctionDecl.lexemes_eq, functionTail, Option.getD_some,
      List.length_cons, List.length_append, length_braces] at hn ⊢
    exact reads_operand_function hname hparams (hg.takesStmts (by omega) hp.2 (by omega))
  | isset operands =>
    simp only [Expr.passes, Bool.and_eq_true, Expr.height] at hp hd
    simp only [Expr.lexemes, Expr.lexemesEach_eq, List.length_cons, length_parens] at hn ⊢
    exact reads_operand_isset (hg.takesEach (by omega) hp.2 (by omega))
  | empty operand =>
    simp only [Expr.passes, Bool.and_eq_true, Expr.height] at hp hd
    simp only [Expr.lexemes, Expr.enclose_eq, List.length_cons, length_parens] at hn ⊢
    exact reads_operand_empty (hg.takes (by omega) hp.2 (by omega))
  | _ => simp [Expr.isGrown] at hgrown

/-- What stands behind the first operand of an expression extends whatever is read in its place, as
long as a target stays one. -/
theorem exists_extension {first : Expr} (hg : g.Covers style n)
    (hfirst : e.first? = some (first, least)) (hn : (e.lexemes style).length ≤ n + 1)
    (hp : e.passes style.check = true) (hd : d + 2 * e.height ≤ maxDepth)
    (hrest : (front rest).level.rank ≤ e.edge) :
    ∃ m tail, e.lexemes style = first.placed style least ++ .mark m :: tail ∧
      m.level = e.level ∧ m.level.rank ≤ least ∧
      ∀ left : Expr, (first.isTarget = true → left.isTarget = true) →
        Reads (g.extend left) d (.mark m :: tail) (e.withFirst left) rest := by
  have hcheck := Expr.check_of_passes hp
  cases e with
  | call callee arguments =>
    cases hfirst
    simp only [Expr.passes, Bool.and_eq_true, Expr.height] at hp hd
    simp only [Expr.lexemes, Expr.enclose_eq, Expr.lexemesEach_eq, List.length_append,
      length_parens] at hn ⊢
    exact ⟨_, _, rfl, rfl, Nat.le_refl _, fun left _ =>
      reads_extend_call (hg.takesEach (by omega) hp.2 (by omega))⟩
  | member object property access =>
    have hmark := access.mark_level
    cases hfirst
    simp only [Expr.lexemes, Expr.enclose_eq]
    exact ⟨_, _, rfl, hmark, hmark ▸ Nat.le_refl _, fun left _ =>
      reads_extend_member (Lexeme.word?_ofWord property)⟩
  | index target key =>
    cases hfirst
    cases key with
    | none =>
      simp only [Expr.lexemes, Expr.enclose_eq]
      exact ⟨_, _, rfl, rfl, Nat.le_refl _, fun left _ => reads_extend_append⟩
    | some key =>
      simp only [Expr.passes, Bool.and_eq_true, Expr.height] at hp hd
      simp only [Expr.lexemes, Expr.enclose_eq, List.length_append, List.length_cons] at hn ⊢
      exact ⟨_, _, rfl, rfl, Nat.le_refl _, fun left _ =>
        reads_extend_index (hg.takes (by omega) hp.2 (by omega))⟩
  | assign target value =>
    cases hfirst
    simp only [Expr.passes, Bool.and_eq_true, Expr.height] at hp hd
    simp only [Expr.lexemes, Expr.enclose_eq, List.length_append, List.length_cons] at hn ⊢
    exact ⟨_, _, rfl, rfl, by decide, fun left htarget =>
      reads_extend_assign (htarget (Style.isTarget_of_assign hcheck))
        (hg.takes (by omega) hp.2 (by omega)) (Level.eq_lowest hrest)⟩
  | choice condition consequence alternative =>
    obtain ⟨hthen, helse⟩ := Style.allowsBranch_of_check hcheck
    cases hfirst
    cases consequence with
    | none =>
      simp only [Expr.passes, Bool.and_eq_true, Expr.height] at hp hd
      simp only [Expr.lexemes, Expr.enclose_eq, List.length_append, List.length_cons] at hn ⊢
      have hbranch := hg.reads_branch (d := d) helse (by omega) hp.2 (by omega)
      exact ⟨_, _, rfl, rfl, by decide, fun left _ =>
        reads_extend_choice_none (hbranch.1 _ (Level.eq_lowest hrest))⟩
    | some consequence =>
      simp only [Expr.passes, Bool.and_eq_true, Expr.height] at hp hd
      simp only [Expr.lexemes, Expr.enclose_eq, List.length_append, List.length_cons] at hn ⊢
      have hyes := hg.reads_branch (d := d) (hthen _ rfl) (by omega) hp.1.2 (by omega)
      have hno := hg.reads_branch (d := d) helse (by omega) hp.2 (by omega)
      exact ⟨_, _, rfl, rfl, by decide, fun left _ =>
        reads_extend_choice (hyes.2 _) (hyes.1 _ rfl) (hno.1 _ (Level.eq_lowest hrest))⟩
  | binary left op right =>
    have hmark := op.mark_level
    cases hfirst
    simp only [Expr.passes, Bool.and_eq_true, Expr.height] at hp hd
    simp only [Expr.lexemes, Expr.enclose_eq, List.length_append, List.length_cons] at hn ⊢
    exact ⟨_, _, rfl, hmark, hmark ▸ Nat.le_refl _, fun left _ =>
      reads_extend_binary (Lexeme.isNewline_of_startsOperand (Expr.front_placed hp.2 rest))
        (hg.expr (.right op) (by omega) hp.2 (by omega) hrest)⟩
  | step operand op =>
    have hmark := op.mark_level
    cases hfirst
    simp only [Expr.lexemes, Expr.enclose_eq]
    exact ⟨_, _, rfl, hmark, hmark ▸ Nat.le_refl _, fun left htarget =>
      reads_extend_step (htarget (Style.isTarget_of_step hcheck))⟩
  | _ => cases hfirst

/-- The first operand of an expression is climbed over in the same run of the loop, unless it stands
in parentheses; everything else inside is covered. -/
theorem climbs {rest : List Lexeme} (hg : g.Covers style n) (e : Expr)
    (hn : (e.lexemes style).length ≤ n + 1) (hp : e.passes style.check = true)
    (hd : d + 2 * e.height ≤ maxDepth) (hlevel : e.isGrown = true → level.rank < e.level.rank)
    (hrest : (front rest).level.rank ≤ e.edge) : Climbs g level d (e.lexemes style) e rest := by
  cases hfirst : e.first? with
  | none => exact .operand (hg.reads_operand hn hp hd (Expr.isGrown_of_first?_eq_none hfirst) hrest)
  | some place =>
    obtain ⟨first, least⟩ := place
    obtain ⟨m, tail, hlexemes, hmark, hm, hextend⟩ := hg.exists_extension hfirst hn hp hd hrest
    have hgrown := hlevel (Expr.isGrown_of_first? hfirst)
    have hheight := Expr.height_first hfirst
    have hpass := Expr.passes_first hfirst hp
    have htail := hextend first id
    rw [Expr.withFirst_first hfirst] at htail
    rw [hlexemes, List.length_append, List.length_cons] at hn
    rw [hlexemes]
    refine .extend ?_ (show level.rank < m.level.rank from hmark ▸ hgrown) (List.cons_ne_nil _ _)
      htail
    by_cases hw : style.wraps least first = true
    · rw [Expr.placed_of_wraps hw] at hn ⊢
      rw [length_parens] at hn
      exact hg.climbs_parens (by omega) hpass (by omega)
    · rw [Expr.placed_of_not_wraps hw] at hn ⊢
      have hrank := (Style.not_wraps_iff.mp hw).2
      have hedge := Expr.rank_le_edge (Nat.le_trans (Expr.rank_first hfirst).1 hrank)
      exact hg.climbs first (by omega) hpass (by omega)
        (fun _ => Nat.lt_of_lt_of_le (hmark ▸ hgrown) (Nat.le_trans hm hrank))
        (Nat.le_trans hm (Nat.le_trans hrank hedge))
termination_by sizeOf e
decreasing_by exact Expr.sizeOf_first hfirst

/-- An expression without parentheses is read at the lowest level. -/
theorem reads_inside (hg : g.Covers style n) (hn : (e.lexemes style).length ≤ n + 1)
    (hp : e.passes style.check = true) (hd : d + 2 * e.height + 1 ≤ maxDepth)
    (hrest : (front rest).level = .lowest) :
    Reads (g.expressionOf .lowest) d (e.lexemes style) e rest := by
  have hrank : (front rest).level.rank = 0 := by rw [hrest]; rfl
  refine Climbs.reads_expressionOf (by omega) ?_ (by omega)
  exact hg.climbs e hn hp (by omega) (fun _ => e.rank_pos) (by omega)

/-- An expression is read in its slot, in parentheses where the slot asks for them. -/
theorem reads_placed (hg : g.Covers style n) (hslot : Slot level least)
    (hn : (e.placed style least).length ≤ n + 1) (hp : e.passes style.check = true)
    (hd : d + 2 * e.height + 2 ≤ maxDepth) (hrest : (front rest).level.rank ≤ level.rank) :
    Reads (g.expressionOf level) d (e.placed style least) e rest := by
  refine Climbs.reads_expressionOf (by omega) ?_ hrest
  by_cases hw : style.wraps least e = true
  · rw [Expr.placed_of_wraps hw] at hn ⊢
    rw [length_parens] at hn
    exact hg.climbs_parens (by omega) hp (by omega)
  · rw [Expr.placed_of_not_wraps hw] at hn ⊢
    obtain ⟨hlevel, hedge⟩ := hslot.fits (Style.not_wraps_iff.mp hw).2
    exact hg.climbs e hn hp (by omega) hlevel (by omega)

theorem reads_first (hg : g.Covers style n) (hn : (e.placed style 0).length ≤ n + 1)
    (hp : e.passes style.check = true) (hd : d + 2 * e.height + 2 ≤ maxDepth)
    (hrest : (front rest).level = .lowest) :
    Reads g.bodyOf d (e.placed style 0) (.expr e) rest := by
  have hstart : (front (e.placed style 0 ++ [])).startsOperand = true := Expr.front_placed hp []
  rw [List.append_nil] at hstart
  exact reads_bodyOf_expr hstart
    (hg.reads_placed .alone hn hp hd (Nat.le_of_eq (congrArg Level.rank hrest)))

/-! ## Statements -/

/-- Every statement is read back up to its semicolon, one case for each kind of statement. -/
theorem reads_stmt (hg : g.Covers style n) {stmt : Stmt}
    (hn : (stmt.lexemes style).length ≤ n + 1) (hp : stmt.passes style.check = true)
    (hd : d + 2 * stmt.height + 2 ≤ maxDepth) :
    Reads g.bodyOf d (stmt.lexemes style) stmt (.mark .semicolon :: rest) := by
  have hcheck := Style.programCheck_of_check (Stmt.check_of_passes hp)
  cases stmt with
  | declare typeName name value =>
    have htype : Keyword.ofWord? typeName = none := by
      have hnames := hcheck (by simp)
      simp only [programCheck, Stmt.words, List.all_cons, Bool.and_eq_true] at hnames
      exact ofWord?_of_isPlainName hnames.1.1
    cases value with
    | none => exact reads_declaration htype (reads_initializer_none rfl)
    | some value =>
      simp only [Stmt.passes, Bool.and_eq_true, Stmt.height] at hp hd
      simp only [Stmt.lexemes, Expr.enclose_eq, List.length_cons] at hn ⊢
      exact reads_declaration htype
        (reads_initializer (hg.takes (by omega) hp.2 (by omega)) rfl)
  | classDef decl =>
    have hplain := hcheck (by simp)
    obtain ⟨name, parent, properties, methods⟩ := decl
    simp only [programCheck, Stmt.words, Bool.and_eq_true, List.all_eq_true] at hplain
    rw [List.forall_mem_cons, List.forall_mem_append, List.forall_mem_append] at hplain
    obtain ⟨⟨-, -, hproperties, hmethods⟩, hbodies⟩ := hplain
    simp only [Stmt.passes, ClassDecl.passes, Bool.and_eq_true, Stmt.height,
      ClassDecl.height] at hp hd
    simp only [Stmt.lexemes, ClassDecl.lexemes, PropertyDecl.lexemesAll_eq,
      FunctionDecl.lexemesAll_eq, List.length_cons, List.length_append, length_braces,
      List.cons_append] at hn ⊢
    exact reads_classDef
      (hg.takesProperties hproperties (by omega) hp.2.1 (by omega))
      (hg.takesMethods hmethods hbodies (by omega) hp.2.2 (by omega))
  | functionDef decl =>
    have hplain := hcheck (by simp)
    simp only [programCheck, Stmt.words, Bool.and_eq_true, List.all_eq_true,
      List.forall_mem_cons] at hplain
    obtain ⟨⟨hname, hwords⟩, hbody⟩ := hplain
    obtain ⟨body, hbody⟩ := Option.isSome_iff_exists.mp hbody
    have hparams := decl.isTyped_of_words hwords
    obtain ⟨name, params, _, isInit⟩ := decl
    subst hbody
    simp only [Stmt.passes, FunctionDecl.passes, Bool.and_eq_true, Stmt.height,
      FunctionDecl.height] at hp hd
    simp only [Stmt.lexemes, FunctionDecl.lexemes_eq, Option.getD_some, List.length_cons] at hn ⊢
    simp only [functionTail, List.length_append, length_braces] at hn
    exact reads_functionDef (ofWord?_of_isPlainName hname) hparams
      (hg.takesStmts (by omega) hp.2 (by omega))
  | forEach iterable key value body =>
    simp only [Stmt.passes, Bool.and_eq_true, Stmt.height] at hp hd
    simp only [Stmt.lexemes, Expr.enclose_eq, Stmt.lexemesAll_eq, List.length_cons,
      List.length_append, List.append_assoc, List.cons_append, length_parens, length_braces] at hn ⊢
    exact reads_forEach (hg.takes (by omega) hp.1.2 (by omega))
      (hg.takesStmts (by omega) hp.2 (by omega))
  | whileLoop condition body =>
    simp only [Stmt.passes, Bool.and_eq_true, Stmt.height] at hp hd
    simp only [Stmt.lexemes, Expr.enclose_eq, Stmt.lexemesAll_eq, List.length_cons,
      List.length_append, length_parens, length_braces] at hn ⊢
    exact reads_whileLoop (hg.takes (by omega) hp.1.2 (by omega))
      (hg.takesStmts (by omega) hp.2 (by omega))
  | doWhile body condition =>
    simp only [Stmt.passes, Bool.and_eq_true, Stmt.height] at hp hd
    simp only [Stmt.lexemes, Expr.enclose_eq, Stmt.lexemesAll_eq, List.length_cons,
      List.length_append, length_parens, length_braces] at hn ⊢
    exact reads_doWhile (hg.takes (by omega) hp.2 (by omega))
      (hg.takesStmts (by omega) hp.1.2 (by omega))
  | tryCatch body caught handler =>
    simp only [Stmt.passes, Bool.and_eq_true, Stmt.height] at hp hd
    simp only [Stmt.lexemes, Stmt.lexemesAll_eq, List.length_cons, List.length_append,
      length_parens, length_braces] at hn ⊢
    exact reads_tryCatch (hg.takesStmts (by omega) hp.1.2 (by omega))
      (hg.takesStmts (by omega) hp.2 (by omega))
  | branch condition consequence alternative =>
    cases alternative with
    | none =>
      simp only [Stmt.passes, Bool.and_eq_true, Stmt.height] at hp hd
      simp only [Stmt.lexemes, Expr.enclose_eq, Stmt.lexemesAll_eq, List.length_cons,
        List.length_append, length_parens, length_braces] at hn ⊢
      exact reads_branchOn_none (hg.takes (by omega) hp.1.2 (by omega))
        (hg.takesStmts (by omega) hp.2 (by omega)) rfl rfl
    | some alternative =>
      simp only [Stmt.passes, Bool.and_eq_true, Stmt.height] at hp hd
      simp only [Stmt.lexemes, Expr.enclose_eq, Stmt.lexemesAll_eq, List.length_cons,
        List.length_append, length_parens, length_braces] at hn ⊢
      exact reads_branchOn (hg.takes (by omega) hp.1.1.2 (by omega))
        (hg.takesStmts (by omega) hp.1.2 (by omega)) (hg.takesStmts (by omega) hp.2 (by omega))
  | select subject cases fallback =>
    cases fallback with
    | none =>
      simp only [Stmt.passes, Bool.and_eq_true, Stmt.height] at hp hd
      simp only [Stmt.lexemes, Expr.enclose_eq, Stmt.caseLexemes_eq, List.length_cons,
        List.length_append, length_parens, length_braces] at hn ⊢
      have hselect : Reads g.bodyOf d _ (.select subject cases none) (.mark .semicolon :: rest) :=
        reads_select (hg.takes (by omega) hp.1.2 (by omega))
          (hg.takesCases (by omega) hp.2 (by omega)) (by simp)
      rwa [Option.elim_none, List.append_nil] at hselect
    | some fallback =>
      simp only [Stmt.passes, Bool.and_eq_true, Stmt.height] at hp hd
      simp only [Stmt.lexemes, Expr.enclose_eq, Stmt.caseLexemes_eq, Stmt.lexemesAll_eq,
        List.length_cons, List.length_append, length_parens, length_braces] at hn ⊢
      have hfallback : ∀ body ∈ some fallback, ∀ stmt ∈ body,
          g.TakesStmt d (stmt.lexemes style) stmt := by
        rintro body ⟨⟩
        exact hg.takesStmts (by omega) hp.2 (by omega)
      have hselect : Reads g.bodyOf d _ (.select subject cases (some fallback))
          (.mark .semicolon :: rest) :=
        reads_select (hg.takes (by omega) hp.1.1.2 (by omega))
          (hg.takesCases (by omega) hp.1.2 (by omega)) hfallback
      exact hselect
  | raise value =>
    simp only [Stmt.passes, Bool.and_eq_true, Stmt.height] at hp hd
    simp only [Stmt.lexemes, Expr.enclose_eq, List.length_cons] at hn ⊢
    exact reads_raise (hg.takes (by omega) hp.2 (by omega)) rfl
  | returns value =>
    cases value with
    | none => exact reads_returns_none rfl
    | some value =>
      simp only [Stmt.passes, Bool.and_eq_true, Stmt.height] at hp hd
      simp only [Stmt.lexemes, Expr.enclose_eq, List.length_cons] at hn ⊢
      exact reads_returns (hg.takes (by omega) hp.2 (by omega)) rfl
  | breaks => exact reads_breaks
  | continues => exact reads_continues
  | load path => exact reads_load
  | package name => exact absurd (hcheck (by simp)) (by simp [programCheck])
  | echo value => exact absurd (hcheck (by simp)) (by simp [programCheck])
  | expr value =>
    simp only [Stmt.passes, Bool.and_eq_true, Stmt.height] at hp hd
    exact hg.reads_first hn hp.2 hd rfl

/-! ## All levels -/

/-- The readers over a grammar cover one lexeme more than the grammar does. -/
theorem succ (hg : g.Covers style n) : Covers ⟨g.expressionOf, g.bodyOf⟩ style (n + 1) where
  expr := hg.reads_placed
  inside := hg.reads_inside
  first := hg.reads_first
  stmt := hg.reads_stmt

/-- Nothing is written with no lexemes. -/
theorem zero : g.Covers style 0 where
  expr _ hn hp _ _ :=
    absurd (List.eq_nil_of_length_eq_zero (Nat.le_zero.mp hn)) (Expr.placed_ne_nil hp)
  inside hn hp _ _ :=
    absurd (List.eq_nil_of_length_eq_zero (Nat.le_zero.mp hn)) (Expr.front_lexemes_inside hp).1
  first hn hp _ _ :=
    absurd (List.eq_nil_of_length_eq_zero (Nat.le_zero.mp hn)) (Expr.placed_ne_nil hp)
  stmt hn hp _ :=
    absurd (List.eq_nil_of_length_eq_zero (Nat.le_zero.mp hn)) (Stmt.lexemes_ne_nil hp)

/-- With `n` steps, texts of up to `n` lexemes are read back. The induction is on the steps. -/
theorem within (style : Style) (n : Nat) :
    Covers ⟨expressionWithin n, bodyWithin n⟩ style n := by
  induction n with
  | zero => exact zero
  | succ n ih => exact ih.succ

end Covers

end Grammar

end RouteScript
