import RouteScript.Proofs.Syntax.Reads
import RouteScript.Proofs.Syntax.Tree
import RouteScript.Syntax.Level

/-!
# Written forms

How expressions, statements and programs are written as lexemes. A style says where parentheses
stand: only where the binding levels ask for them, or around every expression inside another
construct.
-/

namespace RouteScript

/-! ## Marks of operators -/

def BinaryOp.mark : BinaryOp → Mark
  | .add => .plus
  | .subtract => .minus
  | .multiply => .star
  | .divide => .slash
  | .modulo => .percent
  | .equal => .equal
  | .notEqual => .notEqual
  | .less => .less
  | .greater => .greater
  | .lessEqual => .lessEqual
  | .greaterEqual => .greaterEqual
  | .and => .and
  | .or => .or
  | .nullCoalesce => .nullCoalesce
  | .shiftLeft => .shiftLeft
  | .shiftRight => .shiftRight
  | .pipe => .pipe

def UnaryOp.mark : UnaryOp → Mark
  | .not => .bang
  | .negate => .minus

def StepOp.mark : StepOp → Mark
  | .increment => .increment
  | .decrement => .decrement

def Access.mark : Access → Mark
  | .dot => .dot
  | .arrow => .arrow
  | .static => .doubleColon

/-- The lexeme of a word: a keyword, if one has this spelling. -/
def Lexeme.ofWord (word : String) : Lexeme :=
  match Keyword.ofWord? word with
  | some k => if k.spelling = word then .keyword k else .name word
  | none => .name word

theorem Lexeme.word?_ofWord (word : String) : (Lexeme.ofWord word).word? = some word := by
  unfold Lexeme.ofWord
  cases Keyword.ofWord? word with
  | none => rfl
  | some k =>
    dsimp only
    split
    · rename_i hk
      exact congrArg some hk
    · rfl

theorem Lexeme.ofWord_of_none {word : String} (h : Keyword.ofWord? word = none) :
    Lexeme.ofWord word = .name word := by
  rw [Lexeme.ofWord, h]

/-! ## Styles -/

/-- How tightly an expression holds together. What needs no operator holds as tightly as a
member. -/
def Expr.level : Expr → Level
  | .assign .. => .assign
  | .choice .. => .choice
  | .binary _ op _ => op.level
  | .unary .. => .unary
  | .call .. | .step .. => .call
  | _ => .member

inductive Style where
  /-- Around an expression that is looser than its place allows. -/
  | sparse
  /-- Around every expression. -/
  | full
  deriving DecidableEq

/-- Whether an expression gets parentheses at a place for expressions of at least a rank. -/
def Style.wraps (style : Style) (least : Nat) (e : Expr) : Bool :=
  match style with
  | .sparse => e.level.rank < least
  | .full => true

def parens (ls : List Lexeme) : List Lexeme := .mark .leftParen :: (ls ++ [.mark .rightParen])

def braces (ls : List Lexeme) : List Lexeme := .mark .leftBrace :: (ls ++ [.mark .rightBrace])

@[simp] theorem length_parens (ls : List Lexeme) : (parens ls).length = ls.length + 2 := by
  simp [parens]

@[simp] theorem length_braces (ls : List Lexeme) : (braces ls).length = ls.length + 2 := by
  simp [braces]

/-- Put an expression that is written as `ls` into a place for expressions of at least a rank. -/
def Style.enclose (style : Style) (least : Nat) (e : Expr) (ls : List Lexeme) : List Lexeme :=
  if style.wraps least e then parens ls else ls

/-- A branch of a choice that is an expression, written as `ls`. A sparse style has no braces around
it. -/
def Style.branch (style : Style) (e : Expr) (ls : List Lexeme) : List Lexeme :=
  match style with
  | .sparse => ls
  | .full => braces (Style.full.enclose 0 e ls ++ [.mark .semicolon])

def commas : List (List Lexeme) → List Lexeme
  | [] => []
  | [ls] => ls
  | ls :: next :: rest => ls ++ .mark .comma :: commas (next :: rest)

theorem commas_cons_cons (ls next : List Lexeme) (rest : List (List Lexeme)) :
    commas (ls :: next :: rest) = (ls ++ [.mark .comma]) ++ commas (next :: rest) := by
  simp [commas]

/-- Commas stand before all but the first. -/
theorem commas_cons (ls : List Lexeme) (rest : List (List Lexeme)) :
    commas (ls :: rest) = ls ++ rest.flatMap fun ls => .mark .comma :: ls := by
  induction rest generalizing ls with
  | nil => simp [commas]
  | cons next rest ih => rw [commas, ih next, List.flatMap_cons, List.cons_append]

def sequence (w : Stmt → List Lexeme) (stmts : List Stmt) : List Lexeme :=
  stmts.flatMap fun stmt => w stmt ++ [.mark .semicolon]

/-- A parameter with its type, if it has one. -/
def Parameter.lexemes (p : Parameter) : List Lexeme :=
  p.typeName.toList.map Lexeme.ofWord ++ [.mark .dollar, Lexeme.ofWord p.name]

def anonymous : String := "<anonymous>"

def functionKeyword (isInit : Bool) : Keyword := if isInit then .initKw else .functionKw

/-! ## Expressions and statements -/

mutual

def Expr.lexemes (style : Style) : Expr → List Lexeme
  | .int n => [.integer n]
  | .float x => [.float x]
  | .text s => [.text s]
  | .bool b => [.keyword (if b then .trueKw else .falseKw)]
  | .nil => [.keyword .nilKw]
  | .name word => [.mark .dollar, Lexeme.ofWord word]
  | .this => [.keyword .thisKw]
  | .call callee arguments =>
    style.enclose Level.call.rank callee (callee.lexemes style) ++
      parens (commas (Expr.lexemesEach style arguments))
  | .create className arguments =>
    .keyword .newKw :: Lexeme.ofWord className ::
      parens (commas (Expr.lexemesEach style arguments))
  | .member object property access =>
    style.enclose Level.member.rank object (object.lexemes style) ++
      [.mark access.mark, Lexeme.ofWord property]
  | .index target none =>
    style.enclose Level.member.rank target (target.lexemes style) ++
      [.mark .leftBracket, .mark .rightBracket]
  | .index target (some key) =>
    style.enclose Level.member.rank target (target.lexemes style) ++
      .mark .leftBracket :: (style.enclose 0 key (key.lexemes style) ++ [.mark .rightBracket])
  | .assign target value =>
    style.enclose Level.member.rank target (target.lexemes style) ++
      .mark .assign :: style.enclose 0 value (value.lexemes style)
  | .choice condition none alternative =>
    style.enclose Level.nullCoalesce.rank condition (condition.lexemes style) ++
      .mark .question :: .mark .colon :: Stmt.branchLexemes style alternative
  | .choice condition (some consequence) alternative =>
    style.enclose Level.nullCoalesce.rank condition (condition.lexemes style) ++
      .mark .question :: (Stmt.branchLexemes style consequence ++
        .mark .colon :: Stmt.branchLexemes style alternative)
  | .binary left op right =>
    style.enclose op.level.rank left (left.lexemes style) ++
      .mark op.mark :: style.enclose (op.level.rank + 1) right (right.lexemes style)
  | .unary op operand =>
    .mark op.mark :: style.enclose Level.unary.rank operand (operand.lexemes style)
  | .step operand op =>
    style.enclose Level.call.rank operand (operand.lexemes style) ++ [.mark op.mark]
  | .array items =>
    .mark .leftBracket :: (commas (Expr.lexemesEach style items) ++ [.mark .rightBracket])
  | .map pairs => braces (commas (Expr.pairLexemes style pairs))
  | .block body => braces (Stmt.lexemesAll style body)
  | .function decl =>
    .keyword .functionKw :: ((if decl.name = anonymous then [] else [Lexeme.ofWord decl.name]) ++
      decl.lexemes style)
  | .isset operands =>
    .keyword .issetKw :: parens (commas (Expr.lexemesEach style operands))
  | .empty operand =>
    .keyword .emptyKw :: parens (style.enclose 0 operand (operand.lexemes style))

def Expr.lexemesEach (style : Style) : List Expr → List (List Lexeme)
  | [] => []
  | e :: rest => style.enclose 0 e (e.lexemes style) :: Expr.lexemesEach style rest

def Expr.pairLexemes (style : Style) : List (Expr × Expr) → List (List Lexeme)
  | [] => []
  | (key, value) :: rest =>
    (style.enclose 0 key (key.lexemes style) ++
      .mark .colon :: style.enclose 0 value (value.lexemes style)) :: Expr.pairLexemes style rest

def Stmt.branchLexemes (style : Style) : List Stmt → List Lexeme
  | [] => braces []
  | [.expr e] => style.branch e (e.lexemes style)
  | stmt :: rest =>
    braces (stmt.lexemes style ++ .mark .semicolon :: Stmt.lexemesAll style rest)

/-- How a statement is written, without what ends it. -/
def Stmt.lexemes (style : Style) : Stmt → List Lexeme
  | .declare typeName name none =>
    [Lexeme.ofWord typeName, .mark .dollar, Lexeme.ofWord name]
  | .declare typeName name (some value) =>
    Lexeme.ofWord typeName :: .mark .dollar :: Lexeme.ofWord name :: .mark .assign ::
      style.enclose 0 value (value.lexemes style)
  | .classDef decl => decl.lexemes style
  | .functionDef decl =>
    .keyword (functionKeyword decl.isInit) :: Lexeme.ofWord decl.name ::
      decl.lexemes style
  | .forEach iterable key value body =>
    .keyword .foreachKw :: parens (style.enclose 0 iterable (iterable.lexemes style) ++
      .keyword .asKw :: (key.toList.flatMap fun key =>
        [.mark .dollar, Lexeme.ofWord key, .mark .fatArrow]) ++
      [.mark .dollar, Lexeme.ofWord value]) ++ braces (Stmt.lexemesAll style body)
  | .whileLoop condition body =>
    .keyword .whileKw :: (parens (style.enclose 0 condition (condition.lexemes style)) ++
      braces (Stmt.lexemesAll style body))
  | .doWhile body condition =>
    .keyword .doKw :: (braces (Stmt.lexemesAll style body) ++
      .keyword .whileKw :: parens (style.enclose 0 condition (condition.lexemes style)))
  | .tryCatch body caught handler =>
    .keyword .tryKw :: (braces (Stmt.lexemesAll style body) ++
      .keyword .catchKw :: (parens [.mark .dollar, Lexeme.ofWord caught] ++
        braces (Stmt.lexemesAll style handler)))
  | .branch condition consequence none =>
    .keyword .ifKw :: (parens (style.enclose 0 condition (condition.lexemes style)) ++
      braces (Stmt.lexemesAll style consequence))
  | .branch condition consequence (some alternative) =>
    .keyword .ifKw :: (parens (style.enclose 0 condition (condition.lexemes style)) ++
      (braces (Stmt.lexemesAll style consequence) ++
        .keyword .elseKw :: braces (Stmt.lexemesAll style alternative)))
  | .select subject cases none =>
    .keyword .switchKw :: (parens (style.enclose 0 subject (subject.lexemes style)) ++
      braces (Stmt.caseLexemes style cases))
  | .select subject cases (some fallback) =>
    .keyword .switchKw :: (parens (style.enclose 0 subject (subject.lexemes style)) ++
      braces (Stmt.caseLexemes style cases ++
        .keyword .defaultKw :: .mark .colon :: Stmt.lexemesAll style fallback))
  | .raise value => .keyword .throwKw :: style.enclose 0 value (value.lexemes style)
  | .returns none => [.keyword .returnKw]
  | .returns (some value) => .keyword .returnKw :: style.enclose 0 value (value.lexemes style)
  | .breaks => [.keyword .breakKw]
  | .continues => [.keyword .continueKw]
  | .load path => [.keyword .importKw, .text path]
  | .package name => [.keyword .namespaceKw, Lexeme.ofWord name]
  | .echo value => .keyword .echoKw :: style.enclose 0 value (value.lexemes style)
  | .expr value => style.enclose 0 value (value.lexemes style)

/-- How statements are written one after another, with a semicolon behind each. -/
def Stmt.lexemesAll (style : Style) : List Stmt → List Lexeme
  | [] => []
  | stmt :: rest => stmt.lexemes style ++ .mark .semicolon :: Stmt.lexemesAll style rest

def Stmt.caseLexemes (style : Style) : List (Expr × List Stmt) → List Lexeme
  | [] => []
  | (value, body) :: rest =>
    .keyword .caseKw :: (style.enclose 0 value (value.lexemes style) ++
      .mark .colon :: (Stmt.lexemesAll style body ++ Stmt.caseLexemes style rest))

/-- How a function is written behind its name. -/
def FunctionDecl.lexemes (style : Style) : FunctionDecl → List Lexeme
  | ⟨_, params, body, _⟩ =>
    parens (commas (params.map Parameter.lexemes)) ++
      match body with
      | some body => braces (Stmt.lexemesAll style body)
      | none => braces []

/-- How the methods of a class are written. -/
def FunctionDecl.lexemesAll (style : Style) : List FunctionDecl → List Lexeme
  | [] => []
  | decl :: rest =>
    .keyword (functionKeyword decl.isInit) :: Lexeme.ofWord decl.name ::
      (decl.lexemes style ++ FunctionDecl.lexemesAll style rest)

/-- How a property of a class is written. -/
def PropertyDecl.lexemes (style : Style) : PropertyDecl → List Lexeme
  | ⟨name, typeName, initial⟩ =>
    typeName.toList.map Lexeme.ofWord ++ .mark .dollar :: Lexeme.ofWord name ::
      match initial with
      | some value => .mark .assign :: style.enclose 0 value (value.lexemes style)
      | none => []

/-- How the properties of a class are written, with a semicolon behind each. -/
def PropertyDecl.lexemesAll (style : Style) : List PropertyDecl → List Lexeme
  | [] => []
  | decl :: rest => decl.lexemes style ++ .mark .semicolon :: PropertyDecl.lexemesAll style rest

def ClassDecl.lexemes (style : Style) : ClassDecl → List Lexeme
  | ⟨name, parent, properties, methods⟩ =>
    .keyword .classKw :: Lexeme.ofWord name ::
      (parent.toList.flatMap fun parent => [.keyword .extendsKw, Lexeme.ofWord parent]) ++
      braces (PropertyDecl.lexemesAll style properties ++ FunctionDecl.lexemesAll style methods)

end

/-- In the full style a branch stands in braces. -/
theorem Stmt.branchLexemes_full {body : List Stmt} (h : body ≠ []) :
    Stmt.branchLexemes .full body = braces (Stmt.lexemesAll .full body) := by
  fun_cases Stmt.branchLexemes .full body
  · contradiction
  · rfl
  · rfl

end RouteScript
