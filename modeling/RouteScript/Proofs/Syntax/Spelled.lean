import RouteScript.Proofs.Syntax.Fragment

/-!
# The lexemes of written trees

Besides marks and keywords a node is written with lexemes of its own: its literals and names. What
holds of these, of marks and of keywords holds of all the lexemes of a tree. So no written form has
an end in it, and every lexeme of a program that can be written is found where it is shown.
-/

namespace RouteScript

/-! ## Lexemes of single nodes -/

def Expr.literal? : Expr → Option Lexeme
  | .int n => some (.integer n)
  | .float x => some (.float x)
  | .text s => some (.text s)
  | _ => none

/-- Nodes that pass the check are written with lexemes that satisfy `p`. -/
structure Admits (c : NodeCheck) (p : Lexeme → Bool) : Prop where
  mark (m : Mark) : p (.mark m) = true
  keyword (k : Keyword) : p (.keyword k) = true
  literal {e : Expr} (h : c.expr e = true) : ∀ l ∈ e.literal?, p l = true
  path {path : String} (h : c.stmt (.load path) = true) : p (.text path) = true
  exprWord {e : Expr} (h : c.expr e = true) : ∀ word ∈ e.words, p (.ofWord word) = true
  stmtWord {stmt : Stmt} (h : c.stmt stmt = true) : ∀ word ∈ stmt.words, p (.ofWord word) = true

/-! ## Lexemes of trees -/

section Trees

variable {c : NodeCheck} {p : Lexeme → Bool} (hc : Admits c p) (style : Style)

include hc

theorem Admits.parens (ls : List Lexeme) : (parens ls).all p = ls.all p := by
  simp [RouteScript.parens, hc.mark]

theorem Admits.braces (ls : List Lexeme) : (braces ls).all p = ls.all p := by
  simp [RouteScript.braces, hc.mark]

/-- Parentheses do not matter to a test that admits them. -/
theorem Admits.enclose (least : Nat) (e : Expr) (ls : List Lexeme) :
    (style.enclose least e ls).all p = ls.all p := by
  unfold Style.enclose
  split
  · exact hc.parens ls
  · rfl

theorem Admits.commas (l : List (List Lexeme)) : (commas l).all p = l.all (·.all p) := by
  fun_induction RouteScript.commas l with
  | case1 => rfl
  | case2 ls => simp
  | case3 ls next rest ih => simp [ih, hc.mark]

theorem Admits.branchLexemes (body : List Stmt) :
    (Stmt.branchLexemes style body).all p = (Stmt.lexemesAll style body).all p := by
  fun_cases Stmt.branchLexemes style body with
  | case1 => simp [hc.braces, Stmt.lexemesAll]
  | case2 e =>
    cases style <;>
      simp [Style.branch, Stmt.lexemesAll, Stmt.lexemes, hc.braces, hc.enclose, hc.mark]
  | case3 => simp [hc.braces, Stmt.lexemesAll]

theorem Admits.parameters {decl : FunctionDecl}
    (h : ∀ word ∈ decl.words, p (.ofWord word) = true) :
    (decl.params.map Parameter.lexemes).all (·.all p) = true := by
  simp only [FunctionDecl.words, List.forall_mem_flatMap, List.forall_mem_append] at h
  rw [List.all_map, List.all_eq_true]
  intro q hq
  obtain ⟨htype, hname⟩ := h q hq
  simp_all [Parameter.lexemes, hc.mark]

mutual

/-- All lexemes of an expression pass the test that its check stands for. The induction is on the
tree. -/
theorem Expr.all_lexemes : (e : Expr) → e.passes c = true → (e.lexemes style).all p = true
  | .int _, h | .float _, h | .text _, h => by
    simpa [Expr.lexemes, Expr.literal?] using hc.literal h
  | .name _, h => by simpa [Expr.lexemes, Expr.words, hc.mark] using hc.exprWord h
  | .bool _, _ | .nil, _ | .this, _ => by simp [Expr.lexemes, hc.keyword]
  | .call callee arguments, h => by
    simp only [Expr.passes, Bool.and_eq_true] at h
    simp [Expr.lexemes, hc.enclose, hc.parens, hc.commas, callee.all_lexemes h.1.2,
      Expr.all_lexemesEach arguments h.2]
  | .create className arguments, h => by
    simp only [Expr.passes, Bool.and_eq_true] at h
    have hword := hc.exprWord h.1 className (by simp [Expr.words])
    simp [Expr.lexemes, hc.keyword, hc.parens, hc.commas, hword,
      Expr.all_lexemesEach arguments h.2]
  | .member object property access, h => by
    simp only [Expr.passes, Bool.and_eq_true] at h
    have hword := hc.exprWord h.1 property (by simp [Expr.words])
    simp [Expr.lexemes, hc.mark, hc.enclose, hword, object.all_lexemes h.2]
  | .index target none, h => by
    simp only [Expr.passes, Bool.and_eq_true] at h
    simp [Expr.lexemes, hc.mark, hc.enclose, target.all_lexemes h.2]
  | .index target (some key), h => by
    simp only [Expr.passes, Bool.and_eq_true] at h
    simp [Expr.lexemes, hc.mark, hc.enclose, target.all_lexemes h.1.2, key.all_lexemes h.2]
  | .assign target value, h => by
    simp only [Expr.passes, Bool.and_eq_true] at h
    simp [Expr.lexemes, hc.mark, hc.enclose, target.all_lexemes h.1.2, value.all_lexemes h.2]
  | .choice condition none alternative, h => by
    simp only [Expr.passes, Bool.and_eq_true] at h
    simp [Expr.lexemes, hc.mark, hc.enclose, hc.branchLexemes, condition.all_lexemes h.1.2,
      Stmt.all_lexemesAll alternative h.2]
  | .choice condition (some consequence) alternative, h => by
    simp only [Expr.passes, Bool.and_eq_true] at h
    simp [Expr.lexemes, hc.mark, hc.enclose, hc.branchLexemes, condition.all_lexemes h.1.1.2,
      Stmt.all_lexemesAll consequence h.1.2, Stmt.all_lexemesAll alternative h.2]
  | .binary left op right, h => by
    simp only [Expr.passes, Bool.and_eq_true] at h
    simp [Expr.lexemes, hc.mark, hc.enclose, left.all_lexemes h.1.2, right.all_lexemes h.2]
  | .unary op operand, h => by
    simp only [Expr.passes, Bool.and_eq_true] at h
    simp [Expr.lexemes, hc.mark, hc.enclose, operand.all_lexemes h.2]
  | .step operand op, h => by
    simp only [Expr.passes, Bool.and_eq_true] at h
    simp [Expr.lexemes, hc.mark, hc.enclose, operand.all_lexemes h.2]
  | .array items, h => by
    simp only [Expr.passes, Bool.and_eq_true] at h
    simp [Expr.lexemes, hc.mark, hc.commas, Expr.all_lexemesEach items h.2]
  | .map pairs, h => by
    simp only [Expr.passes, Bool.and_eq_true] at h
    simp [Expr.lexemes, hc.braces, hc.commas, Expr.all_pairLexemes pairs h.2]
  | .block body, h => by
    simp only [Expr.passes, Bool.and_eq_true] at h
    simp [Expr.lexemes, hc.braces, Stmt.all_lexemesAll body h.2]
  | .function decl, h => by
    simp only [Expr.passes, Bool.and_eq_true] at h
    obtain ⟨hname, hwords⟩ := List.forall_mem_append.mp (hc.exprWord h.1)
    rw [Expr.lexemes, List.all_cons, List.all_append, hc.keyword, decl.all_lexemes hwords h.2]
    split
    · rfl
    · rename_i hanon
      simpa [hanon] using hname
  | .isset operands, h => by
    simp only [Expr.passes, Bool.and_eq_true] at h
    simp [Expr.lexemes, hc.keyword, hc.parens, hc.commas, Expr.all_lexemesEach operands h.2]
  | .empty operand, h => by
    simp only [Expr.passes, Bool.and_eq_true] at h
    simp [Expr.lexemes, hc.keyword, hc.parens, hc.enclose, operand.all_lexemes h.2]

theorem Expr.all_lexemesEach : (l : List Expr) → Expr.allPass c l = true →
    (Expr.lexemesEach style l).all (·.all p) = true
  | [], _ => rfl
  | e :: rest, h => by
    simp only [Expr.allPass, Bool.and_eq_true] at h
    simp [Expr.lexemesEach, hc.enclose, e.all_lexemes h.1, Expr.all_lexemesEach rest h.2]

theorem Expr.all_pairLexemes : (l : List (Expr × Expr)) →
    Expr.pairsPass c l = true → (Expr.pairLexemes style l).all (·.all p) = true
  | [], _ => rfl
  | (key, value) :: rest, h => by
    simp only [Expr.pairsPass, Bool.and_eq_true] at h
    simp [Expr.pairLexemes, hc.mark, hc.enclose, key.all_lexemes h.1.1, value.all_lexemes h.1.2,
      Expr.all_pairLexemes rest h.2]

/-- So do all lexemes of a statement. -/
theorem Stmt.all_lexemes : (stmt : Stmt) → stmt.passes c = true →
    (stmt.lexemes style).all p = true
  | .declare typeName name none, h => by
    have hwords := hc.stmtWord h
    simp_all [Stmt.words, Stmt.lexemes, hc.mark]
  | .declare typeName name (some value), h => by
    simp only [Stmt.passes, Bool.and_eq_true] at h
    have hwords := hc.stmtWord h.1
    simp_all [Stmt.words, Stmt.lexemes, hc.mark, hc.enclose, value.all_lexemes h.2]
  | .classDef ⟨name, parent, properties, methods⟩, h => by
    simp only [Stmt.passes, ClassDecl.passes, Bool.and_eq_true] at h
    have hwords := hc.stmtWord h.1
    simp only [Stmt.words, List.forall_mem_cons, List.forall_mem_append] at hwords
    obtain ⟨hname, hparent, hproperties, hmethods⟩ := hwords
    have hextends : (parent.toList.flatMap fun parent =>
        [.keyword .extendsKw, Lexeme.ofWord parent]).all p = true := by
      simp_all [hc.keyword]
    simp [-List.all_flatMap, Stmt.lexemes, ClassDecl.lexemes, hc.keyword, hc.braces, hname,
      hextends, PropertyDecl.all_lexemesAll properties hproperties h.2.1,
      FunctionDecl.all_lexemesAll methods hmethods h.2.2]
  | .functionDef decl, h => by
    simp only [Stmt.passes, Bool.and_eq_true] at h
    obtain ⟨hname, hwords⟩ := List.forall_mem_cons.mp (hc.stmtWord h.1)
    simp [Stmt.lexemes, hc.keyword, hname, decl.all_lexemes hwords h.2]
  | .forEach iterable key value body, h => by
    simp only [Stmt.passes, Bool.and_eq_true] at h
    obtain ⟨hkey, hvalue⟩ := List.forall_mem_append.mp (hc.stmtWord h.1.1)
    have hfirst : (key.toList.flatMap fun key =>
        [.mark .dollar, Lexeme.ofWord key, .mark .fatArrow]).all p = true := by
      simp_all [hc.mark]
    have hsecond := hvalue value (by simp)
    simp [-List.all_flatMap, Stmt.lexemes, hc.keyword, hc.mark, hc.parens, hc.braces, hc.enclose,
      hfirst, hsecond, iterable.all_lexemes h.1.2, Stmt.all_lexemesAll body h.2]
  | .whileLoop condition body, h => by
    simp only [Stmt.passes, Bool.and_eq_true] at h
    simp [Stmt.lexemes, hc.keyword, hc.parens, hc.braces, hc.enclose,
      condition.all_lexemes h.1.2, Stmt.all_lexemesAll body h.2]
  | .doWhile body condition, h => by
    simp only [Stmt.passes, Bool.and_eq_true] at h
    simp [Stmt.lexemes, hc.keyword, hc.parens, hc.braces, hc.enclose,
      condition.all_lexemes h.2, Stmt.all_lexemesAll body h.1.2]
  | .tryCatch body caught handler, h => by
    simp only [Stmt.passes, Bool.and_eq_true] at h
    have hword := hc.stmtWord h.1.1 caught (by simp [Stmt.words])
    simp [Stmt.lexemes, hc.keyword, hc.mark, hc.parens, hc.braces, hword,
      Stmt.all_lexemesAll body h.1.2, Stmt.all_lexemesAll handler h.2]
  | .branch condition consequence none, h => by
    simp only [Stmt.passes, Bool.and_eq_true] at h
    simp [Stmt.lexemes, hc.keyword, hc.parens, hc.braces, hc.enclose,
      condition.all_lexemes h.1.2, Stmt.all_lexemesAll consequence h.2]
  | .branch condition consequence (some alternative), h => by
    simp only [Stmt.passes, Bool.and_eq_true] at h
    simp [Stmt.lexemes, hc.keyword, hc.parens, hc.braces, hc.enclose,
      condition.all_lexemes h.1.1.2, Stmt.all_lexemesAll consequence h.1.2,
      Stmt.all_lexemesAll alternative h.2]
  | .select subject cases none, h => by
    simp only [Stmt.passes, Bool.and_eq_true] at h
    simp [Stmt.lexemes, hc.keyword, hc.parens, hc.braces, hc.enclose,
      subject.all_lexemes h.1.2, Stmt.all_caseLexemes cases h.2]
  | .select subject cases (some fallback), h => by
    simp only [Stmt.passes, Bool.and_eq_true] at h
    simp [Stmt.lexemes, hc.keyword, hc.mark, hc.parens, hc.braces, hc.enclose,
      subject.all_lexemes h.1.1.2, Stmt.all_caseLexemes cases h.1.2,
      Stmt.all_lexemesAll fallback h.2]
  | .raise value, h | .returns (some value), h | .echo value, h => by
    simp only [Stmt.passes, Bool.and_eq_true] at h
    simp [Stmt.lexemes, hc.keyword, hc.enclose, value.all_lexemes h.2]
  | .returns none, _ | .breaks, _ | .continues, _ => by simp [Stmt.lexemes, hc.keyword]
  | .load path, h => by simpa [Stmt.lexemes, hc.keyword] using hc.path h
  | .package name, h => by simpa [Stmt.lexemes, Stmt.words, hc.keyword] using hc.stmtWord h
  | .expr value, h => by
    simp only [Stmt.passes, Bool.and_eq_true] at h
    simp [Stmt.lexemes, hc.enclose, value.all_lexemes h.2]

theorem Stmt.all_lexemesAll : (l : List Stmt) → Stmt.allPass c l = true →
    (Stmt.lexemesAll style l).all p = true
  | [], _ => rfl
  | stmt :: rest, h => by
    simp only [Stmt.allPass, Bool.and_eq_true] at h
    simp [Stmt.lexemesAll, hc.mark, stmt.all_lexemes h.1, Stmt.all_lexemesAll rest h.2]

theorem Stmt.all_caseLexemes : (l : List (Expr × List Stmt)) →
    Stmt.casesPass c l = true → (Stmt.caseLexemes style l).all p = true
  | [], _ => rfl
  | (value, body) :: rest, h => by
    simp only [Stmt.casesPass, Bool.and_eq_true] at h
    simp [Stmt.caseLexemes, hc.keyword, hc.mark, hc.enclose, value.all_lexemes h.1.1,
      Stmt.all_lexemesAll body h.1.2, Stmt.all_caseLexemes rest h.2]

theorem FunctionDecl.all_lexemes : (decl : FunctionDecl) →
    (∀ word ∈ decl.words, p (.ofWord word) = true) → decl.passes c = true →
    (decl.lexemes style).all p = true
  | ⟨_, params, none, _⟩, hwords, _ => by
    simpa [FunctionDecl.lexemes, hc.parens, hc.braces, hc.commas] using hc.parameters hwords
  | ⟨_, params, some body, _⟩, hwords, h => by
    simpa [FunctionDecl.lexemes, hc.parens, hc.braces, hc.commas, Stmt.all_lexemesAll body h]
      using hc.parameters hwords

theorem FunctionDecl.all_lexemesAll : (l : List FunctionDecl) →
    (∀ word ∈ l.flatMap fun m => m.name :: m.words, p (.ofWord word) = true) →
    FunctionDecl.allPass c l = true → (FunctionDecl.lexemesAll style l).all p = true
  | [], _, _ => rfl
  | decl :: rest, hwords, h => by
    rw [List.flatMap_cons, List.forall_mem_append, List.forall_mem_cons] at hwords
    simp only [FunctionDecl.allPass, Bool.and_eq_true] at h
    simp [FunctionDecl.lexemesAll, hc.keyword, hwords.1.1, decl.all_lexemes hwords.1.2 h.1,
      FunctionDecl.all_lexemesAll rest hwords.2 h.2]

theorem PropertyDecl.all_lexemesAll : (l : List PropertyDecl) →
    (∀ word ∈ l.flatMap fun p => p.typeName.toList ++ [p.name], p (.ofWord word) = true) →
    PropertyDecl.allPass c l = true → (PropertyDecl.lexemesAll style l).all p = true
  | [], _, _ => rfl
  | ⟨name, typeName, initial⟩ :: rest, hwords, h => by
    rw [List.flatMap_cons, List.forall_mem_append, List.forall_mem_append] at hwords
    simp only [PropertyDecl.allPass, Bool.and_eq_true] at h
    have hrest := PropertyDecl.all_lexemesAll rest hwords.2 h.2
    cases initial with
    | none => simp_all [PropertyDecl.lexemesAll, PropertyDecl.lexemes, hc.mark]
    | some value =>
      have hvalue := value.all_lexemes h.1
      simp_all [PropertyDecl.lexemesAll, PropertyDecl.lexemes, hc.mark, hc.enclose]

end

end Trees

/-! ## Two checks of lexemes -/

/-- Nothing is written with the end of the source. -/
theorem Admits.isEof (c : NodeCheck) : Admits c (!·.isEof) := by
  have hword (word : String) : (!(Lexeme.ofWord word).isEof) = true := by
    unfold Lexeme.ofWord
    split
    · split <;> rfl
    · rfl
  refine ⟨fun _ => rfl, fun _ => rfl, fun {e} _ l hl => ?_, fun _ => rfl,
    fun _ word _ => hword word, fun _ word _ => hword word⟩
  cases e <;> cases hl <;> rfl

/-- Programs are written with lexemes that are found where they are shown. -/
theorem Admits.isSpelled : Admits programCheck Lexeme.isSpelled := by
  have hword {words : List String} (h : words.all isPlainName = true) :
      ∀ word ∈ words, (Lexeme.ofWord word).isSpelled = true := by
    intro word hmem
    have hplain := List.all_eq_true.mp h word hmem
    rw [Lexeme.ofWord_of_none (ofWord?_of_isPlainName hplain)]
    exact isNameWord_of_isPlainName hplain
  refine ⟨fun _ => rfl, fun _ => rfl, fun {e} h l hl => ?_, fun h => h, fun h => ?_, fun h => ?_⟩
  · cases e <;> cases hl <;> exact h
  · exact hword (Bool.and_eq_true _ _ |>.mp h).1
  · exact hword (Bool.and_eq_true _ _ |>.mp h).1

end RouteScript
