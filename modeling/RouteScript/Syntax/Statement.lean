import RouteScript.Syntax.Expression

/-!
# Reading statements

A statement is known by its first token, or by its first two; what no keyword starts is an
expression.
-/

namespace RouteScript.Grammar

open Parse

variable (g : Grammar)

def initializer : Parse (Option Expr) := do
  if ← takeMark .assign then some <$> g.expression .lowest else pure none

def declaration : Parse Stmt := do
  let typeName ← expectName "type name"
  let name ← expectVariable "variable name"
  return .declare typeName name (← g.initializer)

/-- A function or initializer, of which the keyword is in front. An initializer without a name is
the constructor. -/
def functionDecl : Parse FunctionDecl := do
  let isInit ← atKeyword .initKw
  advance
  let nameless ← if isInit then atMark .leftParen else pure false
  let name ← if nameless then pure "constructor" else expectName "function name"
  let params ← parameters
  let body ← g.block
  return ⟨name, params, some body, isInit⟩

def property (typeName : Option String) : Parse PropertyDecl := do
  let name ← expectVariable "property name"
  let initial ← g.initializer
  terminator
  return ⟨name, typeName, initial⟩

def isModifier (word : String) : Bool :=
  word == "public" || word == "private" || word == "protected" || word == "static"

def members (name : String) (parent : Option String) : Parse ClassDecl :=
  loop (([] : List PropertyDecl), ([] : List FunctionDecl)) fun (properties, methods) => do
    skipSeparators
    match ← peek with
    | .mark .rightBrace =>
      advance
      return .done ⟨name, parent, properties.reverse, methods.reverse⟩
    | .keyword .functionKw | .keyword .initKw =>
      return .more (properties, (← g.functionDecl) :: methods)
    | .name word =>
      if isModifier word then
        advance
        return .more (properties, methods)
      else if (← peekSecond).isMark .dollar then
        let typeName ← expectName "type name"
        return .more ((← g.property (some typeName)) :: properties, methods)
      else unexpected "method, Init or property declaration"
    | .mark .dollar => return .more ((← g.property none) :: properties, methods)
    | .eof => unexpected Mark.rightBrace.spelling
    | _ => unexpected "method, Init or property declaration"

def classDef : Parse Stmt := do
  expectKeyword .classKw "class"
  let name ← expectName "class name"
  let parent ←
    if ← atKeyword .extendsKw then
      advance
      some <$> expectName "superclass name"
    else pure none
  skipNewlines
  expectMark .leftBrace
  return .classDef (← g.members name parent)

/-- A loop over the entries of a container, with or without their keys. -/
def forEach : Parse Stmt := do
  expectKeyword .foreachKw "foreach"
  expectMark .leftParen
  let iterable ← g.expression .lowest
  expectKeyword .asKw "as"
  let first ← expectVariable "loop variable"
  let (key, value) ←
    if ← takeMark .fatArrow then
      let value ← expectVariable "loop value variable"
      pure (some first, value)
    else pure (none, first)
  expectMark .rightParen
  return .forEach iterable key value (← g.block)

def whileLoop : Parse Stmt := do
  expectKeyword .whileKw "while"
  let condition ← g.parenthesized
  return .whileLoop condition (← g.block)

def doWhile : Parse Stmt := do
  expectKeyword .doKw "do"
  let body ← g.block
  skipNewlines
  expectKeyword .whileKw "while"
  return .doWhile body (← g.parenthesized)

/-- A block with a handler; the dollar sign of the handler's variable is optional. -/
def tryCatch : Parse Stmt := do
  expectKeyword .tryKw "try"
  let body ← g.block
  skipNewlines
  expectKeyword .catchKw "catch"
  expectMark .leftParen
  let _ ← takeMark .dollar
  let caught ← expectName "catch variable"
  expectMark .rightParen
  return .tryCatch body caught (← g.block)

/-- Pass over line ends before a keyword and over the keyword, and say whether it was there. Without
the keyword the cursor is put back before the line ends. -/
def lineBreakThen (k : Keyword) : Parse Bool where
  run _ s :=
    let rest := s.dropWhile Lexeme.isNewline
    if rest.head.lexeme.isKeyword k then .ok true rest.tail else .ok false s
  exec c :=
    let c' := c.skipWhile Lexeme.isNewline
    if c'.token.lexeme.isKeyword k then .ok true c'.advance
    else .ok false { c' with current := c.current }
  follows c := by
    dsimp only
    rw [← c.stream_skipWhile, Cursor.head_stream]
    split
    next => exact .ok (by simp) (Cursor.stream_advance _)
    next => exact .ok (by simp) rfl

theorem lineBreakThen_apply {k : Keyword} {d : Nat} {s : Stream} : lineBreakThen k d s =
    if (s.dropWhile Lexeme.isNewline).head.lexeme.isKeyword k then
      .ok true (s.dropWhile Lexeme.isNewline).tail
    else .ok false s := rfl

def branchOn : Parse Stmt := do
  expectKeyword .ifKw "if"
  let condition ← g.parenthesized
  let consequence ← g.block
  let alternative ←
    if ← lineBreakThen .elseKw then
      if ← atKeyword .ifKw then
        let inner ← g.body
        pure (some [inner])
      else some <$> g.block
    else pure none
  return .branch condition consequence alternative

def caseBody : Parse Block :=
  loop ([] : List Stmt) fun stmts => do
    skipSeparators
    match ← peek with
    | .keyword .caseKw | .keyword .defaultKw | .mark .rightBrace => return .done stmts.reverse
    | .eof => unexpected Mark.rightBrace.spelling
    | _ => return .more ((← g.statement) :: stmts)

/-- A choice between cases. The last of several fallbacks counts. -/
def select : Parse Stmt := do
  expectKeyword .switchKw "switch"
  let subject ← g.parenthesized
  skipNewlines
  expectMark .leftBrace
  loop (([] : List (Expr × Block)), (none : Option Block)) fun (cases, fallback) => do
    skipSeparators
    match ← peek with
    | .mark .rightBrace =>
      advance
      return .done (.select subject cases.reverse fallback)
    | .keyword .caseKw =>
      advance
      let value ← g.expression .lowest
      expectMark .colon
      let body ← g.caseBody
      return .more ((value, body) :: cases, fallback)
    | .keyword .defaultKw =>
      advance
      expectMark .colon
      let body ← g.caseBody
      return .more (cases, some body)
    | _ => unexpected "case, default or \x7d"

def load : Parse Stmt := do
  expectKeyword .importKw "Import"
  match ← peek with
  | .text path =>
    advance
    return .load path
  | _ => unexpected "import path string"

/-- A package name: whatever stands up to the end of the statement. -/
def package : Parse Stmt := do
  expectKeyword .namespaceKw "Namespace"
  loop "" fun name => do
    let l ← peek
    if l.endsStatement then return .done (.package name)
    else
      advance
      return .more (name ++ l.display)

def keywordBody (k : Keyword) (second : Lexeme) : Parse Stmt := do
  match k with
  | .classKw => g.classDef
  | .initKw => return .functionDef (← g.functionDecl)
  | .foreachKw => g.forEach
  | .importKw => load
  | .namespaceKw => package
  | .whileKw => g.whileLoop
  | .doKw => g.doWhile
  | .tryKw => g.tryCatch
  | .ifKw => g.branchOn
  | .switchKw => g.select
  | .throwKw =>
    advance
    return .raise (← g.expression .lowest)
  | .returnKw =>
    advance
    if (← peek).endsStatement then return .returns none
    else return .returns (some (← g.expression .lowest))
  | .breakKw =>
    advance
    return .breaks
  | .continueKw =>
    advance
    return .continues
  | .functionKw =>
    if second.isName then return .functionDef (← g.functionDecl)
    else return .expr (← g.expressionOf .lowest)
  | .echoKw | .printKw =>
    if second.isMark .leftParen then return .expr (← g.expressionOf .lowest)
    else
      advance
      return .echo (← g.expression .lowest)
  | _ => return .expr (← g.expressionOf .lowest)

def bodyOf : Parse Stmt := do
  match ← peek, ← peekSecond with
  | .keyword k, second => g.keywordBody k second
  | .name _, .mark .dollar => g.declaration
  | _, _ => return .expr (← g.expressionOf .lowest)

end RouteScript.Grammar
