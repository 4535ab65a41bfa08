import RouteScript.Proofs.Eval.Settling
import RouteScript.Proofs.Syntax.RoundTrip

/-!
# Echoed expressions

The keyword `echo` starts a statement that writes the value of the expression behind it. Where a
parenthesis follows, it is the name of a built-in function instead, and the parentheses hold the
argument of its call: what stands behind them belongs to the call and not to what is written.
-/

namespace RouteScript

open Parse Grammar Token

/-! ## First operands in parentheses -/

namespace Expr

/-- An expression in which the first operand that stands in parentheses is the argument of a
call. -/
def callFirst (word : String) (e : Expr) : Expr :=
  match _ : e.first? with
  | none => e
  | some (first, least) =>
    e.withFirst (if Style.sparse.wraps least first then .call (.name word) [first]
      else first.callFirst word)
termination_by sizeOf e
decreasing_by exact sizeOf_first (by assumption)

variable {e first : Expr} {least : Nat} {word : String}

/-- A word in front of an expression calls the first operand if that stands in parentheses, and else
what that operand starts with. -/
theorem callFirst_of_first (h : e.first? = some (first, least)) :
    e.callFirst word = e.withFirst (if Style.sparse.wraps least first
      then .call (.name word) [first] else first.callFirst word) := by
  rw [callFirst]
  split <;> simp_all

theorem isTarget_withFirst (e left : Expr) : (e.withFirst left).isTarget = e.isTarget := by
  cases e <;> rfl

/-- The call becomes part of the first operand, so that a target stays one. -/
theorem isTarget_callFirst (e : Expr) : (e.callFirst word).isTarget = e.isTarget := by
  rw [callFirst]
  split
  · rfl
  · exact isTarget_withFirst _ _

/-- Targets stand without parentheses wherever something behind them extends them. -/
theorem not_wraps_of_isTarget (h : first.isTarget = true) (hleast : least ≤ Level.member.rank) :
    ¬ Style.sparse.wraps least first = true := by
  refine Style.not_wraps_iff.mpr ⟨rfl, ?_⟩
  cases first <;> first | exact hleast | cases h

/-- An expression that starts with no operand does not start with a parenthesis either. -/
theorem front_of_first?_eq_none {style : Style} (h : e.first? = none) :
    (front (e.lexemes style)).isMark .leftParen = false := by
  cases e with
  | bool b => cases b <;> rfl
  | unary op operand => cases op <;> rfl
  | call | member | index | assign | choice | binary | step => cases h
  | _ => rfl

end Expr

/-! ## Reading -/

namespace Grammar

variable {g : Grammar} {n d : Nat} {k : Keyword} {e : Expr} {rest : List Lexeme}

theorem reads_operand_echo (hk : k = .echoKw ∨ k = .printKw) :
    Reads g.operand d [.keyword k] (.name k.spelling) rest := by
  obtain rfl | rfl := hk <;> exact reads_operand_keyword fun _ => reads_advance.bind_one .pure

/-- The lexeme after the keyword decides between a statement and a call. -/
theorem keywordBody_echo (hk : k = .echoKw ∨ k = .printKw) (second : Lexeme) :
    g.keywordBody k second =
      if second.isMark .leftParen then (do return .expr (← g.expressionOf .lowest))
      else (do advance; return .echo (← g.expression .lowest)) := by
  obtain rfl | rfl := hk <;> rfl

namespace Covers

/-- The parentheses of the first operand are read as those of a call, and whatever extended the
operand extends the call. -/
theorem climbs_called {rest : List Lexeme} (hg : g.Covers .sparse n)
    (hk : k = .echoKw ∨ k = .printKw) (e : Expr) (hn : (e.lexemes .sparse).length ≤ n + 1)
    (hp : e.passes Style.sparse.check = true) (hd : d + 2 * e.height ≤ maxDepth)
    (hopen : (front (e.lexemes .sparse)).isMark .leftParen = true)
    (hrest : (front rest).level.rank ≤ e.edge) :
    Climbs g .lowest d (.keyword k :: e.lexemes .sparse) (e.callFirst k.spelling) rest := by
  cases hfirst : e.first? with
  | none => simp [Expr.front_of_first?_eq_none hfirst] at hopen
  | some place =>
    obtain ⟨first, least⟩ := place
    obtain ⟨m, tail, hlexemes, hmark, hm, hextend⟩ := hg.exists_extension hfirst hn hp hd hrest
    have hrank := Expr.rank_first hfirst
    have hheight := Expr.height_first hfirst
    have hpass := Expr.passes_first hfirst hp
    have hlevel : Level.lowest.rank < m.level.rank := hmark ▸ e.rank_pos
    rw [hlexemes, List.length_append, List.length_cons] at hn
    rw [hlexemes] at hopen
    rw [Expr.callFirst_of_first hfirst, hlexemes, ← List.cons_append]
    by_cases hw : Style.sparse.wraps least first = true
    · have hcall : Climbs g .lowest d ([.keyword k] ++ first.placed .sparse least)
          (.call (.name k.spelling) [first]) (.mark m :: tail ++ rest) := by
        rw [Expr.placed_of_wraps hw] at hn ⊢
        rw [length_parens] at hn
        have htakes : g.Takes d (first.placed .sparse 0) first :=
          hg.takes (show (first.lexemes .sparse).length ≤ n by omega) hpass (by omega)
        have hlevel : Level.lowest.rank < Level.call.rank := by decide
        exact .extend (.operand (reads_operand_echo hk)) hlevel (List.cons_ne_nil _ _)
          (reads_extend_call (List.forall_mem_singleton.mpr htakes))
      rw [if_pos hw]
      refine .extend hcall hlevel (List.cons_ne_nil _ _) (hextend _ fun htarget => ?_)
      exact absurd hw (Expr.not_wraps_of_isTarget htarget hrank.2)
    · rw [if_neg hw]
      rw [Expr.placed_of_not_wraps hw] at hn hopen ⊢
      have hleast := (Style.not_wraps_iff.mp hw).2
      have hedge := Expr.rank_le_edge (Nat.le_trans hrank.1 hleast)
      have hne := (Expr.front_lexemes_inside hpass).1
      rw [front_append_of_ne_nil hne] at hopen
      refine .extend ?_ hlevel (List.cons_ne_nil _ _)
        (hextend _ fun htarget => by rwa [Expr.isTarget_callFirst])
      exact hg.climbs_called hk first (by omega) hpass (by omega) hopen
        (Nat.le_trans hm (Nat.le_trans hleast hedge))
termination_by sizeOf e
decreasing_by exact Expr.sizeOf_first hfirst

end Covers

/-- Without a parenthesis after the keyword, the rest is the operand of the statement. -/
theorem reads_echo (hg : g.Covers .sparse n) (hk : k = .echoKw ∨ k = .printKw)
    (hn : (e.lexemes .sparse).length ≤ n) (hp : e.passes Style.sparse.check = true)
    (hd : d + 2 * e.height + 1 ≤ maxDepth) (hrest : (front rest).level = .lowest)
    (hopen : (front (e.lexemes .sparse)).isMark .leftParen = false) :
    Reads g.bodyOf d (.keyword k :: e.lexemes .sparse) (.echo e) rest := by
  refine reads_bodyOf_keyword ?_
  rw [front_append_of_ne_nil (Expr.front_lexemes_inside hp).1, keywordBody_echo hk, hopen]
  exact reads_advance.bind_one ((hg.inside hn hp hd hrest).bind_last .pure)

/-- With a parenthesis after it, the keyword is the name of a function. -/
theorem reads_echo_call (hg : g.Covers .sparse n) (hk : k = .echoKw ∨ k = .printKw)
    (hn : (e.lexemes .sparse).length ≤ n) (hp : e.passes Style.sparse.check = true)
    (hd : d + 2 * e.height + 1 ≤ maxDepth) (hrest : (front rest).level = .lowest)
    (hopen : (front (e.lexemes .sparse)).isMark .leftParen = true) :
    Reads g.bodyOf d (.keyword k :: e.lexemes .sparse) (.expr (e.callFirst k.spelling)) rest := by
  have hrank : (front rest).level.rank = 0 := by rw [hrest]; rfl
  have hclimbs : Climbs g .lowest (d + 1) (.keyword k :: e.lexemes .sparse)
      (e.callFirst k.spelling) rest :=
    hg.climbs_called hk e (by omega) hp (by omega) hopen (by omega)
  refine reads_bodyOf_keyword ?_
  rw [front_append_of_ne_nil (Expr.front_lexemes_inside hp).1, keywordBody_echo hk, hopen]
  exact (hclimbs.reads_expressionOf (by omega) (by omega)).bind_last .pure

end Grammar

/-- What a source text with `echo` in front of a written expression is read as. -/
theorem Program.ofSource_echo {k : Keyword} {e : Expr} {source : String}
    (hk : k = .echoKw ∨ k = .printKw) (hp : e.passes plainCheck = true) (hheight : e.height < 200)
    (htokens : (tokenize source).map Token.lexeme =
      .keyword k :: e.lexemes .sparse ++ [.eof]) :
    Program.ofSource source =
      .ok ⟨[if (front (e.lexemes .sparse)).isMark .leftParen
        then .expr (e.callFirst k.spelling) else .echo e]⟩ := by
  have hpass : e.passes Style.sparse.check = true := hp
  have hg := Covers.within .sparse (Lexeme.keyword k :: e.lexemes .sparse).length
  have hdepth : 0 + 2 * e.height + 1 ≤ maxDepth := by
    rw [maxDepth]
    omega
  have hstart : (Lexeme.keyword k).startsStatement = true := by
    obtain rfl | rfl := hk <;> rfl
  split
  next hopen =>
    exact Program.ofSource_of_body htokens hstart rfl
      (reads_echo_call hg hk (Nat.le_succ _) hpass hdepth rfl hopen)
  next hopen =>
    exact Program.ofSource_of_body htokens hstart rfl
      (reads_echo hg hk (Nat.le_succ _) hpass hdepth rfl (by simpa using hopen))

/-! ## Running -/

/-- What follows a run may be grouped either way. -/
theorem Run.bind_assoc {α β γ : Type} (r : Run α) (f : α → Task → Store → Run β)
    (h : β → Task → Store → Run γ) :
    (r.bind f).bind h = r.bind fun a t s => (f a t s).bind h := by
  induction r with
  | finished o t s => cases o <;> rfl
  | waiting request s resume ih => simp only [Run.bind, ih]

/-- A call of the built-in function writes the value of its argument, unless a declared function has
its name. -/
theorem Evaluator.evaluate_echo_call (ev : Evaluator) {k : Keyword}
    (hk : k = .echoKw ∨ k = .printKw) (operand : Expr) (t : Task) (s : Store) :
    ev.evaluate (.call (.name k.spelling) [operand]) t s =
      (ev.expr operand t s).bind fun v t s =>
        (Dict.get? k.spelling s.functions).elim
          (.finished (.value .nil) t (s.write (v.display ++ "\n")))
          fun decl => ev.invokeFunction decl [v] none t s := by
  have hbuiltin : ∃ b : Builtin, Builtin.ofName? k.spelling = some b ∧ k.spelling ≠ "async" ∧
      ∀ v, b.call [v] = do Script.write (v.display ++ "\n"); return .nil := by
    obtain rfl | rfl := hk
    · exact ⟨.echo, by decide +kernel, by decide, fun v => rfl⟩
    · exact ⟨.print, by decide +kernel, by decide, fun v => rfl⟩
  obtain ⟨b, hname, hasync, hcall⟩ := hbuiltin
  have hargs : ev.exprs [operand] t s =
      (ev.expr operand t s).bind fun v t s => .finished (.value [v]) t s := rfl
  have hnamed (v : Value) (t : Task) (s : Store) :
      ev.callNamed k.spelling [v] t s =
        (Dict.get? k.spelling s.functions).elim
          (.finished (.value .nil) t (s.write (v.display ++ "\n")))
          fun decl => ev.invokeFunction decl [v] none t s := by
    simp only [callNamed, Bind.bind, Script.bind, Script.store, Run.bind, hname, hcall]
    cases Dict.get? k.spelling s.functions <;> rfl
  have hcalled : ev.call (.name k.spelling) [operand] t s =
      (ev.exprs [operand] t s).bind fun args t s => ev.callNamed k.spelling args t s := by
    simp only [call, hasync, decide_false, Bool.false_and, Bool.false_eq_true, if_false, Bind.bind,
      Script.bind]
    rfl
  rw [evaluate, hcalled, hargs, Run.bind_assoc]
  simp only [Run.bind, hnamed]

namespace Interpreter

/-- The statement writes what its expression evaluates to. -/
theorem run?_echo {i j : Interpreter} {e : Expr} {v : Value}
    (h : i.run? (i.evaluator.expr e) = some (.ok v, j)) :
    i.run? (i.evaluator.statement (.echo e)) =
      some (.ok .nil, { j with store := j.store.write (v.display ++ "\n") }) := by
  have hwrite : (do Script.write (v.display ++ "\n"); return Value.nil : Script Value)
      j.task j.store = Script.release (.ok .nil) j.task (j.store.write (v.display ++ "\n")) := rfl
  exact run?_bind h hwrite

/-- A source text with `echo` in front of an expression, written with parentheses only where the
binding levels ask for them. If the expression does not start with a parenthesis, it is written as a
whole: the program leaves what evaluating the expression once leaves, and behind it the text of the
value and a line end. If it does, the first operand in parentheses is the argument of a call, which
writes its value and is nil, and the rest of the expression extends the call. -/
theorem echo_written_expression (e : Expr) (hplain : e.passes plainCheck = true)
    (hheight : e.height < 200) (k : Keyword) (hk : k = .echoKw ∨ k = .printKw) (source : String)
    (hsource : (tokenize source).map Token.lexeme = .keyword k :: e.lexemes .sparse ++ [.eof]) :
    ((front (e.lexemes .sparse)).isMark .leftParen = false →
      Program.ofSource source = .ok ⟨[.echo e]⟩ ∧
      ∀ (i j : Interpreter) (v : Value), i.run? (i.evaluator.expr e) = some (.ok v, j) →
        j.store.runsMain = false →
        i.runSource source =
          (.value .nil, { j with store := j.store.write (v.display ++ "\n") })) ∧
    ((front (e.lexemes .sparse)).isMark .leftParen = true →
      Program.ofSource source = .ok ⟨[.expr (e.callFirst k.spelling)]⟩ ∧
      ∀ (ev : Evaluator) (operand : Expr) (t : Task) (s : Store),
        ev.evaluate (.call (.name k.spelling) [operand]) t s =
          (ev.expr operand t s).bind fun v t s =>
            (Dict.get? k.spelling s.functions).elim
              (.finished (.value .nil) t (s.write (v.display ++ "\n")))
              fun decl => ev.invokeFunction decl [v] none t s) := by
  have hread := Program.ofSource_echo hk hplain hheight hsource
  constructor
  · intro hclosed
    have hprogram : Program.ofSource source = .ok ⟨[.echo e]⟩ := by simpa [hclosed] using hread
    refine ⟨hprogram, fun i j v hrun hmain => ?_⟩
    simp only [runSource, hprogram]
    exact execute_of_statement rfl (run?_echo hrun) hmain
  · intro hopen
    refine ⟨by simpa [hopen] using hread, fun ev operand t s => ?_⟩
    exact ev.evaluate_echo_call hk operand t s

/-- The source text `echo ( 1 + 2 ) * 3` writes 3 and fails, although the expression is 9. -/
theorem echo_opening_parenthesis :
    let e : Expr := .binary (.binary (.int 1) .add (.int 2)) .multiply (.int 3)
    let source := Lexeme.source (.keyword .echoKw :: e.lexemes .sparse)
    let i := create {}
    e.passes plainCheck = true ∧ e.height < 200 ∧
    (tokenize source).map Token.lexeme = .keyword .echoKw :: e.lexemes .sparse ++ [.eof] ∧
    i.run? (i.evaluator.expr e) = some (.ok (.int 9), i) ∧ i.store.runsMain = false ∧
    i.runSource source =
      (.fault (.invalid (.operands .multiply .nil .int)),
        { i with store := i.store.write ((Value.int 3).display ++ "\n") }) := by
  intro e source i
  have hplain : e.passes plainCheck = true := by decide
  have htokens : (tokenize source).map Token.lexeme =
      .keyword .echoKw :: e.lexemes .sparse ++ [.eof] := by
    refine lexemes_tokenize_source (List.all_eq_true.mp ?_)
    decide +kernel
  have hcall : e.callFirst "echo" =
      .binary (.call (.name "echo") [.binary (.int 1) .add (.int 2)]) .multiply (.int 3) := by
    rw [Expr.callFirst_of_first rfl]
    rfl
  have hread : Program.ofSource source = .ok ⟨[.expr (e.callFirst "echo")]⟩ :=
    Program.ofSource_echo (.inl rfl) hplain (by decide) htokens
  refine ⟨hplain, by decide, htokens, rfl, by decide +kernel, ?_⟩
  rw [runSource, hread, hcall]
  rfl

/-- The source texts `echo 2 * ( 1 + 2 )` and `print ( 1 + 2 ) * 3`. -/
theorem echo_written_expression_products :
    let e : Expr := .binary (.int 2) .multiply (.binary (.int 1) .add (.int 2))
    let e' : Expr := .binary (.binary (.int 1) .add (.int 2)) .multiply (.int 3)
    let i := create {}
    i.runSource (Lexeme.source (.keyword .echoKw :: e.lexemes .sparse)) =
      (.value .nil, { i with store := i.store.write ((Value.int 6).display ++ "\n") }) ∧
    Program.ofSource (Lexeme.source (.keyword .printKw :: e'.lexemes .sparse)) =
      .ok ⟨[.expr (e'.callFirst "print")]⟩ := by
  intro e e' i
  have hspelled : (Lexeme.keyword .echoKw :: e.lexemes .sparse).all Lexeme.isSpelled = true := by
    decide +kernel
  have hspelled' : (Lexeme.keyword .printKw :: e'.lexemes .sparse).all Lexeme.isSpelled = true := by
    decide +kernel
  obtain ⟨hclosed, -⟩ := echo_written_expression e (by decide) (by decide) .echoKw (.inl rfl) _
    (lexemes_tokenize_source (List.all_eq_true.mp hspelled))
  obtain ⟨-, hopen⟩ := echo_written_expression e' (by decide) (by decide) .printKw (.inr rfl) _
    (lexemes_tokenize_source (List.all_eq_true.mp hspelled'))
  exact ⟨(hclosed rfl).2 i i (.int 6) rfl (by decide +kernel), (hopen rfl).1⟩

end Interpreter

end RouteScript
