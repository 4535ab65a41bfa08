import RouteScript.Proofs.Syntax.ExpressionReads
import RouteScript.Proofs.Token.Spelling
import RouteScript.Syntax.Program

/-!
# Trees that can be written

Not every tree has a written form: names may be spelled like keywords, an empty block would be read
as a map, and some nodes are only ever made by the interpreter. The checks here say which trees have
one, for each style.
-/

namespace RouteScript

/-! ## Names -/

def isPlainName (word : String) : Bool := isNameWord word && !Grammar.isModifier word

theorem isNameWord_of_isPlainName {word : String} (h : isPlainName word = true) :
    isNameWord word = true := by
  simp_all [isPlainName]

/-- A plain name is no keyword. -/
theorem ofWord?_of_isPlainName {word : String} (h : isPlainName word = true) :
    Keyword.ofWord? word = none := ofWord?_of_isNameWord (isNameWord_of_isPlainName h)

theorem isModifier_of_isPlainName {word : String} (h : isPlainName word = true) :
    Grammar.isModifier word = false := by
  simp_all [isPlainName]

/-! ## Expressions with sparse parentheses -/

def isSingle : List Stmt → Bool
  | [.expr _] => true
  | _ => false

/-- A single branch is one expression. -/
theorem eq_expr_of_isSingle {body : List Stmt} (h : isSingle body = true) :
    ∃ e, body = [.expr e] := by
  fun_cases isSingle body
  case case1 e => exact ⟨e, rfl⟩
  case case2 => simp_all [isSingle]

/-- Expressions without blocks in braces, maps and function literals. Variables are no keywords. -/
def plainCheck : NodeCheck where
  expr
    | .int n => decide (0 ≤ n)
    | .float _ => false
    | .text s => isQuotable s
    | .name word => (Keyword.ofWord? word).isNone
    | .assign target _ | .step target _ => target.isTarget
    | .choice _ consequence alternative => consequence.all isSingle && isSingle alternative
    | .map _ | .block _ | .function _ => false
    | _ => true
  stmt
    | .expr _ => true
    | _ => false

/-! ## Programs with full parentheses -/

/-- The names in the head of a function. -/
def FunctionDecl.words (decl : FunctionDecl) : List String :=
  decl.params.flatMap fun p => p.typeName.toList ++ [p.name]

def Expr.words : Expr → List String
  | .name word => [word]
  | .create className _ => [className]
  | .member _ property _ => [property]
  | .function decl => (if decl.name = anonymous then [] else [decl.name]) ++ decl.words
  | _ => []

def Stmt.words : Stmt → List String
  | .declare typeName name _ => [typeName, name]
  | .classDef decl =>
    decl.name :: (decl.parent.toList ++
      (decl.properties.flatMap (fun p => p.typeName.toList ++ [p.name]) ++
        decl.methods.flatMap fun m => m.name :: m.words))
  | .functionDef decl => decl.name :: decl.words
  | .forEach _ key value _ => key.toList ++ [value]
  | .tryCatch _ caught _ => [caught]
  | .package name => [name]
  | _ => []

/-- Programs in which names are plain, functions have bodies and no block of an expression is
empty. -/
def programCheck : NodeCheck where
  expr e :=
    e.words.all isPlainName &&
      match e with
      | .int n => decide (0 ≤ n)
      | .float _ => false
      | .text s => isQuotable s
      | .assign target _ | .step target _ => target.isTarget
      | .choice _ consequence alternative => consequence.all (!·.isEmpty) && !alternative.isEmpty
      | .block body => !body.isEmpty
      | .function decl => decl.body.isSome && !decl.isInit
      | _ => true
  stmt stmt :=
    stmt.words.all isPlainName &&
      match stmt with
      | .classDef decl => decl.methods.all (·.body.isSome)
      | .functionDef decl => decl.body.isSome
      | .load path => isQuotable path
      | .package _ | .echo _ => false
      | _ => true

def Style.check : Style → NodeCheck
  | .sparse => plainCheck
  | .full => programCheck

def Style.allowsBranch : Style → List Stmt → Bool
  | .sparse, body => isSingle body
  | .full, body => !body.isEmpty

theorem Style.allowsBranch_of_check {style : Style} {condition : Expr}
    {consequence : Option (List Stmt)} {alternative : List Stmt}
    (h : style.check.expr (.choice condition consequence alternative) = true) :
    (∀ body ∈ consequence, style.allowsBranch body = true) ∧
      style.allowsBranch alternative = true := by
  cases style <;> cases consequence <;>
    simpa [Style.check, plainCheck, programCheck, Expr.words, Style.allowsBranch] using h

/-- In checked code assignments are to targets. -/
theorem Style.isTarget_of_assign {style : Style} {target value : Expr}
    (h : style.check.expr (.assign target value) = true) : target.isTarget = true := by
  cases style <;> exact h

theorem Style.isTarget_of_step {style : Style} {target : Expr} {op : StepOp}
    (h : style.check.expr (.step target op) = true) : target.isTarget = true := by
  cases style <;> exact h

theorem Style.ofWord?_of_name {style : Style} {word : String}
    (h : style.check.expr (.name word) = true) : Keyword.ofWord? word = none := by
  cases style with
  | sparse => simpa [Style.check, plainCheck] using h
  | full =>
    refine ofWord?_of_isPlainName ?_
    simpa [Style.check, programCheck, Expr.words] using h

/-- In checked code a block is not empty, since an empty one would be read as a map. -/
theorem Style.ne_nil_of_block {style : Style} {body : List Stmt}
    (h : style.check.expr (.block body) = true) : body ≠ [] := by
  cases style with
  | sparse => simp [Style.check, plainCheck] at h
  | full => simpa [Style.check, programCheck, Expr.words] using h

/-- A sparse style writes no statements but expressions. -/
theorem Style.programCheck_of_check {style : Style} {stmt : Stmt}
    (h : style.check.stmt stmt = true) (hne : ∀ e, stmt ≠ .expr e) :
    programCheck.stmt stmt = true := by
  cases style with
  | sparse => cases stmt <;> simp_all [Style.check, plainCheck]
  | full => exact h

theorem FunctionDecl.isTyped_of_words {decl : FunctionDecl}
    (h : ∀ word ∈ decl.words, isPlainName word = true) :
    ∀ p ∈ decl.params, p.isTyped = true := by
  intro p hp
  refine Option.all_eq_true _ _ |>.mpr fun word hword => ?_
  have hmem : word ∈ decl.words := by
    simp only [FunctionDecl.words, List.mem_flatMap]
    exact ⟨p, hp, by simp [Option.mem_def.mp hword]⟩
  simpa using ofWord?_of_isPlainName (h word hmem)

/-- In checked code a function has plain names and a body. -/
theorem Style.words_of_function {style : Style} {decl : FunctionDecl}
    (h : style.check.expr (.function decl) = true) :
    (∀ word ∈ decl.words, isPlainName word = true) ∧ (∃ body, decl.body = some body) ∧
      decl.isInit = false ∧ (decl.name = anonymous ∨ Keyword.ofWord? decl.name = none) := by
  cases style with
  | sparse => simp [Style.check, plainCheck] at h
  | full =>
    simp only [Style.check, programCheck, Expr.words, List.all_append, Bool.and_eq_true,
      Bool.not_eq_true', List.all_eq_true] at h
    refine ⟨h.1.2, Option.isSome_iff_exists.mp h.2.1, h.2.2, ?_⟩
    refine or_iff_not_imp_left.mpr fun hname => ?_
    exact ofWord?_of_isPlainName (h.1.1 _ (by simp [hname]))

end RouteScript
