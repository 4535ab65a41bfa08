import RouteScript.Proofs.Syntax.ExpressionLayout

/-!
# Layouts of statements

Every reader of statements reads the loosened forms of what it reads. Outside of parentheses,
brackets and maps line ends stay as they are, since there they end statements; a reader that looks
for what may stand behind line ends finds the same in both texts.
-/

namespace RouteScript.Grammar

open Parse Follow

variable {g g' : Grammar} {P : Lexeme → Prop}

/-! ## Rounds of members -/

def propertyPieces (typeName : Option String) (decl : PropertyDecl) (ps : List Piece) : Prop :=
  ∃ p q t, Variable decl.name p ∧ Led Expr.LaidOut (.mark .assign) decl.initial q ∧
    Stretch isSeparator t ∧ decl.typeName = typeName ∧ ps = p ++ (q ++ t)

theorem laidOut_of_propertyPieces {decl : PropertyDecl} {ps : List Piece}
    (h : propertyPieces none decl ps) :
    ∃ p t, Filled PropertyDecl.LaidOut decl p ∧ Stretch isSeparator t ∧ ps = p ++ t := by
  obtain ⟨name, _, initial⟩ := decl
  obtain ⟨p, q, t, hp, hq, ht, rfl, rfl⟩ := h
  refine ⟨p ++ q, t, ⟨.plain hp hq, ?_⟩, ht, by simp⟩
  cases hp
  simp

theorem laidOut_of_typed_propertyPieces {word : String} {decl : PropertyDecl} {ps : List Piece}
    (h : propertyPieces (some word) decl ps) :
    ∃ p t, Filled PropertyDecl.LaidOut decl p ∧ Stretch isSeparator t ∧
      .fixed (.name word) :: ps = p ++ t := by
  obtain ⟨name, _, initial⟩ := decl
  obtain ⟨p, q, t, hp, hq, ht, rfl, rfl⟩ := h
  exact ⟨.fixed (.name word) :: (p ++ q), t, ⟨.typed hp hq, by simp⟩, ht, by simp⟩

inductive MemberRound (name : String) (parent : Option String) :
    List PropertyDecl × List FunctionDecl →
    Round (List PropertyDecl × List FunctionDecl) ClassDecl → List Piece → Prop
  | close {properties : List PropertyDecl} {methods : List FunctionDecl} {b : List Piece} :
    Stretch isSeparator b → MemberRound name parent (properties, methods)
      (.done ⟨name, parent, properties.reverse, methods.reverse⟩) (b ++ [.mark .rightBrace])
  | modifier {properties : List PropertyDecl} {methods : List FunctionDecl} {b : List Piece}
    {word : String} : Stretch isSeparator b → isModifier word = true →
    MemberRound name parent (properties, methods) (.more (properties, methods))
      (b ++ [.fixed (.name word)])
  | property {properties : List PropertyDecl} {methods : List FunctionDecl} {decl : PropertyDecl}
    {b p t : List Piece} : Stretch isSeparator b → Filled PropertyDecl.LaidOut decl p →
    Stretch isSeparator t →
    MemberRound name parent (properties, methods) (.more (decl :: properties, methods))
      (b ++ (p ++ t))
  | method {properties : List PropertyDecl} {methods : List FunctionDecl} {decl : FunctionDecl}
    {b p : List Piece} : Stretch isSeparator b → Filled FunctionDecl.LaidOut decl p →
    MemberRound name parent (properties, methods) (.more (properties, decl :: methods)) (b ++ p)

variable {name : String} {parent : Option String}

theorem ne_nil_of_memberRound {state next : List PropertyDecl × List FunctionDecl}
    {ps : List Piece} (h : MemberRound name parent state (.more next) ps) : lexemesOf ps ≠ [] := by
  cases h with
  | modifier => simp
  | property _ hp _ => simp [hp.2]
  | method _ hp => simp [hp.2]

/-- The rounds of a class lay out its properties and methods in the order they are written. -/
theorem members_of_runs {state : List PropertyDecl × List FunctionDecl} {decl : ClassDecl}
    {ps : List Piece} (h : Runs (MemberRound name parent) state decl ps) :
    ∃ properties methods, decl = ⟨name, parent, state.1.reverse ++ properties,
      state.2.reverse ++ methods⟩ ∧ Members properties methods ps := by
  induction h with
  | done hround =>
    cases hround with
    | close hb => exact ⟨[], [], by simp, .close hb⟩
  | more hround _ ih =>
    obtain ⟨properties, methods, rfl, hmembers⟩ := ih
    cases hround with
    | modifier hb hword =>
      exact ⟨properties, methods, rfl, by simpa using .modifier hb hword hmembers⟩
    | @property _ _ decl _ _ _ hb hp ht =>
      exact ⟨decl :: properties, methods, by simp, by simpa using .property hb hp.1 ht hmembers⟩
    | @method _ _ decl _ _ hb hp =>
      exact ⟨properties, decl :: methods, by simp, by simpa using .method hb hp.1 hmembers⟩

/-! ## Line ends before a keyword -/

section LineBreaks

variable {α : Type} {post : α → Follow} {W : α → List Piece → Prop} {k : Keyword}
  {f f' : Bool → Parse α}

/-- Whether line breaks are taken in depends on the keyword behind them. -/
theorem lineBreakThen_bind_apply {d : Nat} {s : Stream} : (lineBreakThen k >>= f) d s =
    (if (front (s.lexemes.dropWhile Lexeme.isNewline)).isKeyword k then do
      skipNewlines
      expectKeyword k ""
      f true
    else f false : Parse α) d s := by
  rw [← Stream.lexemes_dropWhile, ← Stream.head_lexeme, bind_apply, lineBreakThen_apply]
  by_cases hk : (s.dropWhile Lexeme.isNewline).head.lexeme.isKeyword k
  · rw [if_pos hk, if_pos hk, bind_apply, skipNewlines, skipWhile_apply]
    change _ = (expectKeyword k "" >>= fun _ => f true) d (s.dropWhile Lexeme.isNewline)
    rw [bind_apply, expectKeyword, bind_apply, atKeyword_apply, hk]
    rfl
  · simp [hk]

/-- The first lexeme behind line ends is the same in both texts, so the keyword is found in both or
in none. -/
theorem laysOut_lineBreakThen
    (htrue : ∀ b, Stretch Lexeme.isNewline b →
      LaysOut anywhere same post (fun a q => W a (b ++ .keyword k :: q)) (f true) (f' true))
    (hfalse : LaysOut P same post W (f false) (f' false)) :
    LaysOut P same post W (lineBreakThen k >>= f) (lineBreakThen k >>= f') := by
  have hbreak : LaysOut P same post W
      (skipNewlines >>= fun _ => expectKeyword k "" >>= fun _ => f true)
      (skipNewlines >>= fun _ => expectKeyword k "" >>= fun _ => f' true) :=
    laysOut_skipNewlines.bind fun _ b hb => laysOut_expectKeyword (through_same rfl) (htrue b hb)
  intro d s a rest hP hread
  rw [lineBreakThen_bind_apply] at hread
  obtain ⟨ps, hW, hs, hps⟩ := LaysOut.ite (fun _ => hbreak) (fun _ => hfalse) hP hread
  refine ⟨ps, hW, hs, fun ps' rest' hloose hpost => ?_⟩
  obtain ⟨hsame, hreads⟩ := hps ps' rest' hloose hpost
  refine ⟨hsame, fun s' hs' => ?_⟩
  rw [lineBreakThen_bind_apply, hs', hsame.2]
  exact hreads s' hs'

end LineBreaks

/-! ## Rounds of clauses -/

/-- One round of the loop that reads the clauses of a choice between cases. -/
inductive ClauseRound (subject : Expr) : List (Expr × Block) × Option Block →
    Round (List (Expr × Block) × Option Block) Stmt → List Piece → Prop
  | close {cases : List (Expr × Block)} {fallback : Option Block} {b : List Piece} :
    Stretch isSeparator b → ClauseRound subject (cases, fallback)
      (.done (.select subject cases.reverse fallback)) (b ++ [.mark .rightBrace])
  | case {cases : List (Expr × Block)} {fallback : Option Block} {value : Expr} {body : Block}
    {b p q : List Piece} : Stretch isSeparator b → Expr.LaidOut value p →
    Sequence Stmt.LaidOut body q →
    ClauseRound subject (cases, fallback) (.more ((value, body) :: cases, fallback))
      (b ++ .keyword .caseKw :: (p ++ .mark .colon :: q))
  | fallback {cases : List (Expr × Block)} {fallback : Option Block} {body : Block}
    {b q : List Piece} : Stretch isSeparator b → Sequence Stmt.LaidOut body q →
    ClauseRound subject (cases, fallback) (.more (cases, some body))
      (b ++ .keyword .defaultKw :: .mark .colon :: q)

theorem ne_nil_of_clauseRound {subject : Expr} {state next : List (Expr × Block) × Option Block}
    {ps : List Piece} (h : ClauseRound subject state (.more next) ps) : lexemesOf ps ≠ [] := by
  cases h <;> simp

/-- A fallback that is read later takes the place of the one before. -/
theorem clauses_of_runs {subject : Expr} {state : List (Expr × Block) × Option Block} {stmt : Stmt}
    {ps : List Piece} (h : Runs (ClauseRound subject) state stmt ps) :
    ∃ cases fallback, stmt = .select subject (state.1.reverse ++ cases) (fallback.or state.2) ∧
      Clauses cases fallback ps := by
  induction h with
  | done hround =>
    cases hround with
    | close hb => exact ⟨[], none, by simp, .close hb⟩
  | more hround _ ih =>
    obtain ⟨cases, fallback, rfl, hclauses⟩ := ih
    cases hround with
    | @case _ _ value body _ _ _ hb hp hq =>
      exact ⟨(value, body) :: cases, fallback, by simp, by simpa using .case hb hp hq hclauses⟩
    | @fallback _ _ body _ _ hb hq =>
      refine ⟨cases, fallback.or (some body), ?_, ?_⟩
      · cases fallback <;> simp
      · rw [List.append_assoc]
        exact .fallback hb hq hclauses

/-! ## Names of packages -/

def packageRound (name : String) : Round String Stmt → List Piece → Prop
  | .done stmt, ps => stmt = .package name ∧ ps = []
  | .more next, ps =>
    ∃ l : Lexeme, l.endsStatement = false ∧ next = name ++ l.display ∧ ps = [.fixed l]

/-- The name of a package is what its lexemes spell up to the end of the statement. -/
theorem package_of_runs {name : String} {stmt : Stmt} {ps : List Piece}
    (h : Runs packageRound name stmt ps) : ∃ ls : List Lexeme, (∀ l ∈ ls, l.endsStatement = false) ∧
      stmt = .package (ls.foldl (fun name l => name ++ l.display) name) ∧ ps = ls.map .fixed := by
  induction h with
  | done hround =>
    obtain ⟨rfl, rfl⟩ := hround
    exact ⟨[], by simp, rfl, rfl⟩
  | more hround _ ih =>
    obtain ⟨l, hl, rfl, rfl⟩ := hround
    obtain ⟨ls, hls, rfl, rfl⟩ := ih
    exact ⟨l :: ls, by simp [hl]; exact hls, rfl, rfl⟩

theorem laysOut_package :
    LaysOut P ahead (fun _ => same) (Filled Stmt.LaidOut) package package := by
  refine laysOut_expectKeyword (through_ahead_same rfl) ?_
  refine (laysOut_loop (V := packageRound) (fun name => ?_) ?_).mono fun hruns => ?_
  · refine laysOut_peek And.left fun l _ => .ite (fun _ => LaysOut.pure id ⟨rfl, rfl⟩) fun hl => ?_
    have hne : l.isEof = false := by cases l <;> first | rfl | exact absurd rfl hl
    refine laysOut_advance hne through_same_same (LaysOut.pure id ?_)
    exact ⟨l, by simpa using hl, rfl, rfl⟩
  · rintro _ _ _ ⟨l, -, -, rfl⟩
    simp
  · obtain ⟨ls, hls, rfl, rfl⟩ := package_of_runs hruns
    exact ⟨.package hls, by simp⟩

theorem laysOut_load : LaysOut P ahead (fun _ => any) (Filled Stmt.LaidOut) load load := by
  refine laysOut_expectKeyword (through_ahead_same rfl) (laysOut_peek And.left fun l _ => ?_)
  cases l with
  | text path =>
    exact laysOut_advance rfl (through_same rfl) (LaysOut.pure id ⟨.load path, by simp⟩)
  | _ => exact laysOut_unexpected

/-! ## Keywords -/

/-- A keyword that is a statement. -/
theorem laysOut_keywordStmt {k : Keyword} {stmt : Stmt} (h : Stmt.LaidOut stmt [.keyword k]) :
    LaysOut (· = .keyword k) ahead (fun _ => same) (Filled Stmt.LaidOut)
      (do
        advance
        return stmt)
      (do
        advance
        return stmt) :=
  laysOut_advance rfl (through_ahead rfl) (LaysOut.pure same.loose ⟨h, by simp⟩)

/-- Line ends, commas and closing marks behind a keyword all tell the same. -/
theorem keywordBody_of_isQuiet {k : Keyword} {second : Lexeme} (h : second.isQuiet = true) :
    g.keywordBody k second = g.keywordBody k .newline := by
  obtain rfl | rfl | rfl | rfl | rfl := Lexeme.eq_of_isQuiet h <;> rfl

namespace Mirrors

variable (hg : Mirrors g g')

include hg

/-! ## Declarations -/

theorem laysOut_initializer : LaysOut P same (fun _ => same) (Led Expr.LaidOut (.mark .assign))
    g.initializer g'.initializer := by
  refine laysOut_takeMark_ite (M := same) And.left (through_same rfl) (LaysOut.map ?_) ?_
  · exact ((hg.expression .lowest).strengthen same.loose).mono fun hp => .some hp.1
  · exact LaysOut.pure id .none

theorem laysOut_declaration : LaysOut P ahead (fun _ => same) (Filled Stmt.LaidOut) g.declaration
    g'.declaration := by
  refine (laysOut_expectName (M := loose) through_ahead).bind fun typeName p hp => ?_
  refine (laysOut_expectVariable.weaken same.loose).bind fun name q hq => LaysOut.bind_return ?_
  refine hg.laysOut_initializer.behind_any.mono fun hr => ⟨.declare hp hq hr, ?_⟩
  cases hp
  simp

theorem laysOut_functionDecl : LaysOut (fun l => l = .keyword .functionKw ∨ l = .keyword .initKw)
    ahead (fun _ => any) (Filled FunctionDecl.LaidOut) g.functionDecl g'.functionDecl := by
  refine laysOut_atKeyword (fun h => congrArg _ h.1.1) ?_ ?_
  · refine laysOut_advance rfl (through_ahead rfl) ?_
    refine laysOut_atMark (fun h => h.isMark_eq rfl) ?_ ?_
    · refine LaysOut.bind_pure ((hg.laysOut_callable fun hp hq => ?_).weaken same.loose)
      exact ⟨.nameless hp hq, by simp⟩
    · refine (laysOut_expectName (M := any) fun _ => through_loose).bind fun name w hw => ?_
      refine (hg.laysOut_callable fun hp hq => ?_).behind_any
      exact ⟨.named true hw hp hq, by simp⟩
  · refine LaysOut.narrow (Q := (· = .keyword .functionKw)) ?_ ?_
    · refine laysOut_advance rfl (through_ahead rfl) (LaysOut.bind_pure ?_)
      refine (laysOut_expectName (M := any) fun _ => through_loose).bind fun name w hw => ?_
      refine (hg.laysOut_callable fun hp hq => ?_).behind_any
      exact ⟨.named false hw hp hq, by simp⟩
    · rintro l ⟨rfl | rfl, hl⟩
      · rfl
      · cases hl

/-! ## Classes -/

/-- A property is laid out with its end. -/
theorem laysOut_property {typeName : Option String} : LaysOut P same (fun _ => same)
    (propertyPieces typeName) (g.property typeName) (g'.property typeName) := by
  refine laysOut_expectVariable.bind fun name p hp => ?_
  refine hg.laysOut_initializer.behind_any.bind fun initial q hq => ?_
  refine laysOut_terminator.bind fun _ t ht => LaysOut.pure id ?_
  exact ⟨p, q, t, hp, hq, ht, rfl, by simp⟩

theorem laysOut_members : LaysOut P same (fun _ => any)
    (fun decl ps => ∃ properties methods, decl = ⟨name, parent, properties, methods⟩ ∧
      Members properties methods ps) (g.members name parent) (g'.members name parent) := by
  refine (laysOut_loop (V := MemberRound name parent) (fun state => ?_) ne_nil_of_memberRound).mono
    members_of_runs
  obtain ⟨properties, methods⟩ := state
  refine laysOut_skipSeparators.bind fun _ b hb => laysOut_peek And.left fun l _ => ?_
  have hmethod : LaysOut _ same (fun _ => same) (Filled FunctionDecl.LaidOut) g.functionDecl
      g'.functionDecl := (hg.laysOut_functionDecl.weaken ahead.same).self_ending
  cases l with
  | mark m =>
    cases m with
    | rightBrace => exact laysOut_advance rfl (through_same rfl) (LaysOut.pure id (.close hb))
    | dollar =>
      refine LaysOut.bind_return (hg.laysOut_property.mono fun hdecl => ?_)
      obtain ⟨p, t, hp, ht, rfl⟩ := laidOut_of_propertyPieces hdecl
      exact .property hb hp ht
    | _ => exact laysOut_unexpected
  | keyword k =>
    cases k with
    | functionKw =>
      exact LaysOut.bind_return ((hmethod.narrow fun _ => .inl).mono fun hp => .method hb hp)
    | initKw =>
      exact LaysOut.bind_return ((hmethod.narrow fun _ => .inr).mono fun hp => .method hb hp)
    | _ => exact laysOut_unexpected
  | name word =>
    refine .ite (fun hword => ?_) fun _ => ?_
    · exact laysOut_advance rfl (through_same rfl) (LaysOut.pure id (.modifier hb hword))
    · refine (laysOut_peekSecond (fun second => .ite (fun _ => ?_) fun _ => laysOut_unexpected)
        ?_).weaken ahead.same
      · refine (laysOut_expectName (M := loose) through_ahead).front_mem.bind ?_
        rintro _ _ ⟨⟨hword⟩, hfront⟩
        obtain rfl := hfront (by simp)
        cases hword
        refine LaysOut.bind_return ((hg.laysOut_property.weaken same.loose).mono fun hdecl => ?_)
        obtain ⟨p, t, hp, ht, hps⟩ := laidOut_of_typed_propertyPieces hdecl
        rw [List.singleton_append, hps]
        exact .property hb hp ht
      · rintro x y (hopens | rfl | ⟨hx, hy⟩)
        · cases hopens
        · rfl
        · rw [Lexeme.isMark_of_isQuiet hx rfl, Lexeme.isMark_of_isQuiet hy rfl]
  | _ => exact laysOut_unexpected

theorem laysOut_classDef : LaysOut P ahead (fun _ => any) (Filled Stmt.LaidOut) g.classDef
    g'.classDef := by
  refine laysOut_expectKeyword (through_ahead rfl) ((laysOut_expectName (M := same) fun _ =>
    through_loose).bind fun name p hp => ?_)
  have hmembers {parent : Option String} {q : List Piece}
      (hq : Led Named (.keyword .extendsKw) parent q) : LaysOut anywhere same (fun _ => any)
      (fun stmt r => Filled Stmt.LaidOut stmt (.keyword .classKw :: (p ++ (q ++ r))))
      (do
        skipNewlines
        expectMark .leftBrace
        return .classDef (← g.members name parent))
      (do
        skipNewlines
        expectMark .leftBrace
        return .classDef (← g'.members name parent)) := by
    refine laysOut_skipNewlines.bind fun _ b hb => ?_
    refine laysOut_expectMark (through_same rfl) (LaysOut.bind_return (hg.laysOut_members.mono ?_))
    rintro _ r ⟨properties, methods, rfl, hr⟩
    exact ⟨.classDef hp hq hb hr, by simp⟩
  refine laysOut_atKeyword_ite And.left ?_ ?_
  · refine laysOut_advance rfl (through_same rfl) (LaysOut.bind_map ((laysOut_expectName (M := same)
      through_same).bind fun parent q hq => ?_))
    exact hmembers (.some hq)
  · exact LaysOut.bind_pure (hmembers .none).at_any

/-! ## Loops -/

theorem laysOut_forEach : LaysOut P ahead (fun _ => any) (Filled Stmt.LaidOut) g.forEach
    g'.forEach := by
  refine laysOut_expectKeyword (through_ahead rfl) (laysOut_expectMark through_loose
    ((hg.expression .lowest).bind fun iterable p hp => ?_))
  refine laysOut_expectKeyword through_loose (laysOut_expectVariable.self_ending.bind
    (M := fun _ => same) fun first k hk => ?_)
  refine laysOut_takeMark_ite And.left (through_same rfl) (laysOut_expectVariable.bind
    fun value q hq => LaysOut.bind_pure ?_) (LaysOut.bind_pure ?_)
  · refine laysOut_expectMark through_any (LaysOut.bind_return (hg.laysOut_block.mono fun hr => ?_))
    exact ⟨.forEachKey hp.1 hk hq hr, by simp⟩
  · refine laysOut_expectMark (through_same rfl) (LaysOut.bind_return (hg.laysOut_block.mono
      fun hr => ?_))
    exact ⟨.forEach hp.1 hk hr, by simp⟩

theorem laysOut_whileLoop : LaysOut P ahead (fun _ => any) (Filled Stmt.LaidOut) g.whileLoop
    g'.whileLoop := by
  refine laysOut_expectKeyword (through_ahead rfl) ((hg.laysOut_parenthesized.weaken
    fun h => h.same.loose).bind fun condition p hp => LaysOut.bind_return ?_)
  exact hg.laysOut_block.behind_any.mono fun hq => ⟨.whileLoop hp hq, by simp⟩

theorem laysOut_doWhile : LaysOut P ahead (fun _ => any) (Filled Stmt.LaidOut) g.doWhile
    g'.doWhile := by
  refine laysOut_expectKeyword (through_ahead rfl) ((hg.laysOut_block.weaken
    same.loose).self_ending.bind fun body p hp => laysOut_skipNewlines.bind fun _ b hb => ?_)
  refine laysOut_expectKeyword (through_same rfl) (LaysOut.bind_return
    (hg.laysOut_parenthesized.mono fun hq => ?_))
  exact ⟨.doWhile hp hb hq, by simp⟩

theorem laysOut_tryCatch : LaysOut P ahead (fun _ => any) (Filled Stmt.LaidOut) g.tryCatch
    g'.tryCatch := by
  refine laysOut_expectKeyword (through_ahead rfl) ((hg.laysOut_block.weaken
    same.loose).self_ending.bind fun body p hp => laysOut_skipNewlines.bind fun _ b hb => ?_)
  have hhandler {caught : String} {q : List Piece} (hq : Named caught q ∨ Variable caught q) :
      LaysOut anywhere any (fun _ => any)
      (fun stmt r => Filled Stmt.LaidOut stmt (.keyword .tryKw ::
        (p ++ (b ++ .keyword .catchKw :: .mark .leftParen :: (q ++ r)))))
      (do
        expectMark .rightParen
        return .tryCatch body caught (← g.block))
      (do
        expectMark .rightParen
        return .tryCatch body caught (← g'.block)) := by
    refine laysOut_expectMark through_any (LaysOut.bind_return (hg.laysOut_block.mono fun hr => ?_))
    exact ⟨.tryCatch hp hb hq hr, by simp⟩
  refine laysOut_expectKeyword (M := same) (through_same rfl) (laysOut_expectMark (M := same)
    (through_same rfl) ?_)
  refine laysOut_takeMark (M := any) And.left (through_same rfl) ?_ ?_
  · refine (laysOut_expectName (M := any) fun _ => through_any).bind ?_
    rintro caught _ ⟨hl⟩
    exact hhandler (.inr (.mk hl))
  · exact (laysOut_expectName (M := any) through_same).bind fun caught q hq => hhandler (.inl hq)

/-! ## Branches -/

/-- The line breaks before `else` belong to the statement only if there is an `else`. -/
theorem laysOut_branchOn : LaysOut P ahead (fun _ => same) (Filled Stmt.LaidOut) g.branchOn
    g'.branchOn := by
  refine laysOut_expectKeyword (through_ahead rfl) ((hg.laysOut_parenthesized.weaken
    fun h => h.same.loose).bind fun condition p hp => ?_)
  refine hg.laysOut_block.behind_any.self_ending.bind (M := fun _ => same) fun yes q hq => ?_
  have hbranch {no : Option Block} {r : List Piece} (hr : Alternative no r) :
      LaysOut anywhere same (fun _ => same)
      (fun stmt t => Filled Stmt.LaidOut stmt (.keyword .ifKw :: (p ++ (q ++ (r ++ t)))))
      (pure (.branch condition yes no)) (pure (.branch condition yes no)) :=
    LaysOut.pure id ⟨by simpa using Stmt.LaidOut.branch hp hq hr, by simp⟩
  refine laysOut_lineBreakThen (fun b hb => ?_) (LaysOut.bind_pure (hbranch .none))
  refine laysOut_atKeyword_ite And.left ?_ ?_
  · refine hg.body.at_any.bind fun inner r hr => LaysOut.bind_pure ?_
    simpa using hbranch (.stmt hb hr.1)
  · refine LaysOut.bind_map (hg.laysOut_block.self_ending.bind (M := fun _ => same)
      fun no r hr => ?_)
    simpa using hbranch (.block hb hr)

/-! ## Cases -/

theorem laysOut_caseBody : LaysOut P same (fun _ => same) (Sequence Stmt.LaidOut) g.caseBody
    g'.caseBody := by
  refine (laysOut_loop (V := stmtRound []) (fun stmts => ?_) ne_nil_of_stmtRound).mono fun h => ?_
  · refine laysOut_skipSeparators.bind fun _ b hb => laysOut_peek And.left fun l _ => ?_
    have hdone : LaysOut (· = l) same (Round.follow same fun _ => same)
        (fun turn q => stmtRound [] stmts turn (b ++ q)) (pure (.done stmts.reverse))
        (pure (.done stmts.reverse)) := LaysOut.pure id ⟨b, hb, rfl, rfl⟩
    have hmore : LaysOut (· = l) same (Round.follow same fun _ => same)
        (fun turn q => stmtRound [] stmts turn (b ++ q))
        (do return .more ((← g.statement) :: stmts))
        (do return .more ((← g'.statement) :: stmts)) :=
      LaysOut.bind_return (hg.laysOut_statement.mono fun hq => ⟨b, _, _, hb, hq, rfl, rfl⟩)
    cases l with
    | mark m => cases m <;> first | exact hdone | exact hmore
    | keyword k => cases k <;> first | exact hdone | exact hmore
    | eof => exact laysOut_unexpected
    | _ => exact hmore
  · obtain ⟨stmts, q, rfl, hq, rfl⟩ := Sequence.of_runs h
    simpa using hq

/-- The cases of a selection are laid out in order, with the fallback anywhere among them. -/
theorem laysOut_select : LaysOut P ahead (fun _ => any) (Filled Stmt.LaidOut) g.select
    g'.select := by
  refine laysOut_expectKeyword (through_ahead rfl) ((hg.laysOut_parenthesized.weaken
    fun h => h.same.loose).self_ending.bind (M := fun _ => same) fun subject p hp => ?_)
  refine laysOut_skipNewlines.bind fun _ b hb => ?_
  refine laysOut_expectMark (M := same) (through_same rfl) ?_
  refine (laysOut_loop (V := ClauseRound subject) (fun state => ?_) ne_nil_of_clauseRound).mono
    fun h => ?_
  · obtain ⟨cases, fallback⟩ := state
    refine laysOut_skipSeparators.bind fun _ b hb => laysOut_peek And.left fun l _ => ?_
    cases l with
    | mark m =>
      cases m with
      | rightBrace => exact laysOut_advance rfl (through_same rfl) (LaysOut.pure id (.close hb))
      | _ => exact laysOut_unexpected
    | keyword k =>
      cases k with
      | caseKw =>
        refine laysOut_advance rfl (through_same rfl) ((hg.expression .lowest).bind
          fun value p hp => ?_)
        refine laysOut_expectMark through_loose (LaysOut.bind_return (hg.laysOut_caseBody.mono
          fun hq => ?_))
        exact .case hb hp.1 hq
      | defaultKw =>
        refine laysOut_advance rfl (through_same rfl) (laysOut_expectMark (through_same rfl)
          (LaysOut.bind_return (hg.laysOut_caseBody.mono fun hq => ?_)))
        exact .fallback hb hq
      | _ => exact laysOut_unexpected
    | _ => exact laysOut_unexpected
  · obtain ⟨cases, fallback, rfl, hq⟩ := clauses_of_runs h
    refine ⟨?_, by simp⟩
    simpa using Stmt.LaidOut.select hp hb hq

/-! ## Statements -/

theorem laysOut_exprStmt : LaysOut P ahead (fun _ => same) (Filled Stmt.LaidOut)
    (do return .expr (← g.expressionOf .lowest)) (do return .expr (← g'.expressionOf .lowest)) :=
  LaysOut.bind_return ((hg.laysOut_expressionOf.strengthen same.loose).mono
    fun hp => ⟨.expr hp.1, hp.2⟩)

/-- A keyword and the expression behind it. -/
theorem laysOut_keywordExpr {k : Keyword} {f : Expr → Stmt}
    (hf : ∀ {e p}, Expr.LaidOut e p → Stmt.LaidOut (f e) (.keyword k :: p)) :
    LaysOut (· = .keyword k) ahead (fun _ => same) (Filled Stmt.LaidOut)
      (do
        advance
        return f (← g.expression .lowest))
      (do
        advance
        return f (← g'.expression .lowest)) := by
  refine laysOut_advance rfl (through_ahead rfl) (LaysOut.bind_return ?_)
  refine (((hg.expression .lowest).weaken same.loose).strengthen same.loose).mono fun hp => ?_
  exact ⟨hf hp.1, by simp⟩

theorem laysOut_returns : LaysOut (· = .keyword .returnKw) ahead (fun _ => same)
    (Filled Stmt.LaidOut)
    (do
      advance
      if (← peek).endsStatement then return .returns none
      else return .returns (some (← g.expression .lowest)))
    (do
      advance
      if (← peek).endsStatement then return .returns none
      else return .returns (some (← g'.expression .lowest))) := by
  refine laysOut_advance rfl (through_ahead_same rfl) ?_
  refine laysOut_peek And.left fun l _ => .ite (fun _ => ?_) fun _ => LaysOut.bind_return ?_
  · exact LaysOut.pure id ⟨.returnsNothing, by simp⟩
  · exact ((hg.expression .lowest).strengthen same.loose).at_any.mono
      fun hp => ⟨.returns hp.1, by simp⟩

theorem laysOut_functionDef : LaysOut (fun l => l = .keyword .functionKw ∨ l = .keyword .initKw)
    ahead (fun _ => same) (Filled Stmt.LaidOut) (do return .functionDef (← g.functionDecl))
    (do return .functionDef (← g'.functionDecl)) :=
  LaysOut.bind_return (hg.laysOut_functionDecl.self_ending.mono fun hp => ⟨.functionDef hp.1, hp.2⟩)

/-- Every statement that starts with a keyword is laid out. -/
theorem laysOut_keywordBody {k : Keyword} {second : Lexeme} : LaysOut (· = .keyword k) ahead
    (fun _ => same) (Filled Stmt.LaidOut) (g.keywordBody k second) (g'.keywordBody k second) := by
  cases k with
  | classKw => exact hg.laysOut_classDef.self_ending
  | initKw => exact hg.laysOut_functionDef.narrow fun _ => .inr
  | foreachKw => exact hg.laysOut_forEach.self_ending
  | importKw => exact laysOut_load.self_ending
  | namespaceKw => exact laysOut_package
  | whileKw => exact hg.laysOut_whileLoop.self_ending
  | doKw => exact hg.laysOut_doWhile.self_ending
  | tryKw => exact hg.laysOut_tryCatch.self_ending
  | ifKw => exact hg.laysOut_branchOn
  | switchKw => exact hg.laysOut_select.self_ending
  | throwKw => exact hg.laysOut_keywordExpr .raise
  | returnKw => exact hg.laysOut_returns
  | breakKw => exact laysOut_keywordStmt .breaks
  | continueKw => exact laysOut_keywordStmt .continues
  | functionKw =>
    exact .ite (fun _ => hg.laysOut_functionDef.narrow fun _ => .inl) fun _ => hg.laysOut_exprStmt
  | echoKw => exact .ite (fun _ => hg.laysOut_exprStmt) fun _ => hg.laysOut_keywordExpr .echo
  | printKw => exact .ite (fun _ => hg.laysOut_exprStmt) fun _ => hg.laysOut_keywordExpr .print
  | _ => exact hg.laysOut_exprStmt

/-- Every statement that is read is laid out. -/
theorem laysOut_bodyOf : LaysOut P same (fun _ => same) (Filled Stmt.LaidOut) g.bodyOf
    g'.bodyOf := by
  refine LaysOut.weaken ?_ ahead.same
  refine laysOut_peek (fun h => h.same.1) fun l _ => ?_
  cases l with
  | keyword k =>
    refine laysOut_peekSecond (fun second => hg.laysOut_keywordBody) ?_
    rintro x y (hopens | rfl | ⟨hx, hy⟩)
    · cases hopens
    · rfl
    · exact (keywordBody_of_isQuiet hy).trans (keywordBody_of_isQuiet hx).symm
  | name word =>
    refine laysOut_peekSecond (fun second => ?_) ?_
    · cases second with
      | mark m =>
        cases m with
        | dollar => exact hg.laysOut_declaration
        | _ => exact hg.laysOut_exprStmt
      | _ => exact hg.laysOut_exprStmt
    · rintro x y (hopens | rfl | ⟨hx, hy⟩)
      · cases hopens
      · rfl
      · obtain rfl | rfl | rfl | rfl | rfl := Lexeme.eq_of_isQuiet hx <;>
          obtain rfl | rfl | rfl | rfl | rfl := Lexeme.eq_of_isQuiet hy <;> rfl
  | _ => exact laysOut_peekSecond (fun second => hg.laysOut_exprStmt) fun _ _ _ => rfl

end Mirrors

end RouteScript.Grammar
