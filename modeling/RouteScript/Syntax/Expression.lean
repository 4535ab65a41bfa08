import RouteScript.Syntax.Level
import RouteScript.Syntax.Parse

/-!
# Reading expressions

An operand is read first; then the tokens behind it extend it as long as they bind more tightly than
what the expression was begun for. Braces are settled by what they hold: nothing or an expression
with a colon behind it makes a map, and everything else a block.

The readers for what stands inside are given by a `Grammar`, so that each reader here is a plain
definition; `Syntax/Program.lean` ties the knot.
-/

namespace RouteScript

structure Grammar where
  /-- An expression whose operators bind more tightly than a level. -/
  expression : Level → Parse Expr
  /-- A statement without what ends it. -/
  body : Parse Stmt

def maxDepth : Nat := 512

def Lexeme.endsStatement (l : Lexeme) : Bool :=
  l.isNewline || l.isMark .semicolon || l.isMark .rightBrace || l.isEof

def Stmt.isSimple : Stmt → Bool
  | .declare .. | .raise _ | .returns _ | .breaks | .continues | .load _ | .package _ | .echo _
  | .expr _ | .doWhile .. => true
  | _ => false

def Expr.isTarget : Expr → Bool
  | .name _ | .member .. | .index .. => true
  | _ => false

def Expr.asKey (bare : Bool) : Expr → Expr
  | .name word => if bare then .text word else .name word
  | e => e

namespace Grammar

open Parse

variable (g : Grammar)

/-- Take the end of a simple statement. A closing brace is left for its block. -/
def terminator : Parse Unit := do
  let l ← peek
  if isSeparator l then advance
  else if l.endsStatement then pure ()
  else unexpected "end of statement"

/-- Take what ends a statement; behind a statement that ends in a block a semicolon is optional. -/
def finish (stmt : Stmt) : Parse Unit := do
  if stmt.isSimple then terminator
  else
    let _ ← takeMark .semicolon

def statement : Parse Stmt := do
  let stmt ← g.body
  finish stmt
  return stmt

def blockRest (first : List Stmt) : Parse Block :=
  loop first.reverse fun stmts => do
    skipSeparators
    let l ← peek
    if l.isMark .rightBrace then
      advance
      return .done stmts.reverse
    else if l.isEof then unexpected Mark.rightBrace.spelling
    else return .more ((← g.statement) :: stmts)

def block : Parse Block := do
  skipNewlines
  expectMark .leftBrace
  g.blockRest []

/-- An expression in parentheses, of which the opening one is still in front. -/
def parenthesized : Parse Expr := do
  expectMark .leftParen
  skipNewlines
  let e ← g.expression .lowest
  skipNewlines
  expectMark .rightParen
  return e

def items (close : Mark) (expected : String) : Parse (List Expr) :=
  loop ([] : List Expr) fun found => do
    skipNewlines
    if ← takeMark close then return .done found.reverse
    else
      let e ← g.expression .lowest
      skipNewlines
      if ← takeMark .comma then return .more (e :: found)
      else if ← atMark close then return .more (e :: found)
      else unexpected expected

def arguments : Parse (List Expr) := do
  expectMark .leftParen
  g.items .rightParen ", or )"

def parameter : Parse Parameter := do
  let typeName ← if (← peek).isName then some <$> expectName "parameter type" else pure none
  let name ← expectVariable "parameter name"
  return ⟨name, typeName⟩

def parameters : Parse (List Parameter) := do
  expectMark .leftParen
  loop ([] : List Parameter) fun found => do
    skipNewlines
    if ← takeMark .rightParen then return .done found.reverse
    else
      unless found.isEmpty do
        expectMark .comma
        skipNewlines
      return .more ((← parameter) :: found)

def mapRest (first : Expr) : Parse Expr :=
  loop (first, ([] : List (Expr × Expr))) fun (key, pairs) => do
    expectMark .colon
    skipNewlines
    let value ← g.expression .lowest
    let pairs := (key, value) :: pairs
    skipNewlines
    if ← takeMark .comma then skipNewlines
    if ← takeMark .rightBrace then return .done (.map pairs.reverse)
    else
      let l ← peek
      if l.isEof then unexpected Mark.rightBrace.spelling
      else
        let next ← g.expression .lowest
        return .more (next.asKey l.isName, pairs)

def brace : Parse Expr := do
  skipNewlines
  if ← takeMark .rightBrace then return .map []
  else
    let bare := (← peek).isName
    let first ← g.body
    let colon ← atMark .colon
    match first, colon with
    | .expr e, true => g.mapRest (e.asKey bare)
    | stmt, _ =>
      finish stmt
      return .block (← g.blockRest [stmt])

def branch : Parse Block := do
  skipNewlines
  if ← takeMark .leftBrace then
    match ← g.brace with
    | .block stmts => return stmts
    | e => return [.expr e]
  else return [.expr (← g.expression .lowest)]

/-- A choice; its condition and the question mark have been taken. -/
def choice (condition : Expr) : Parse Expr := do
  let consequence ←
    if ← atMark .colon then pure none
    else
      let stmts ← g.branch
      skipNewlines
      pure (some stmts)
  expectMark .colon
  return .choice condition consequence (← g.branch)

def functionLiteral : Parse Expr := do
  let name ← if (← peek).isName then expectName "function name" else pure "<anonymous>"
  let params ← parameters
  let body ← g.block
  return .function ⟨name, params, some body, false⟩

/-- A new object; its keyword has been taken. The arguments may be missing. -/
def creation : Parse Expr := do
  let name ← expectName "class name after new"
  let args ← if ← atMark .leftParen then g.arguments else pure []
  return .create name args

def keywordOperand (k : Keyword) (t : Token) : Parse Expr := do
  advance
  match k with
  | .trueKw => return .bool true
  | .falseKw => return .bool false
  | .nilKw => return .nil
  | .thisKw => return .this
  | .echoKw => return .name "echo"
  | .printKw => return .name "print"
  | .newKw => g.creation
  | .functionKw => g.functionLiteral
  | .issetKw => return .isset (← g.arguments)
  | .emptyKw =>
    expectMark .leftParen
    let e ← g.expression .lowest
    expectMark .rightParen
    return .empty e
  | _ => fail (.noExpression t.lexeme t.position)

def markOperand (m : Mark) (t : Token) : Parse Expr := do
  match m with
  | .leftParen => g.parenthesized
  | .semicolon | .rightBrace => fail (.noExpression t.lexeme t.position)
  | m =>
    advance
    match m with
    | .dollar =>
      if ← atKeyword .thisKw then
        advance
        return .this
      else return .name (← expectName "variable name after $")
    | .bang => return .unary .not (← g.expression .unary)
    | .minus => return .unary .negate (← g.expression .unary)
    | .leftBracket => return .array (← g.items .rightBracket ", or ]")
    | .leftBrace => g.brace
    | _ => fail (.noExpression t.lexeme t.position)

def operand : Parse Expr := do
  let t ← token
  match t.lexeme with
  | .integer n =>
    advance
    return .int n
  | .float x =>
    advance
    return .float x
  | .text s =>
    advance
    return .text s
  | .name word =>
    advance
    return .name word
  | .keyword k => g.keywordOperand k t
  | .mark m => g.markOperand m t
  | .illegal _ =>
    advance
    fail (.noExpression t.lexeme t.position)
  | .newline | .eof => fail (.noExpression t.lexeme t.position)

def extend (left : Expr) : Parse Expr := do
  let t ← token
  match t.lexeme with
  | .mark .leftParen =>
    revisit
    return .call left (← g.arguments)
  | .mark m =>
    advance
    match m with
    | .assign =>
      if left.isTarget then
        skipNewlines
        return .assign left (← g.expression .lowest)
      else fail (.misuse .assignmentTarget t.position)
    | .question => g.choice left
    | .leftBracket =>
      skipNewlines
      let key ← if ← atMark .rightBracket then pure none else some <$> g.expression .lowest
      skipNewlines
      expectMark .rightBracket
      return .index left key
    | .dot => return .member left (← expectName "member name") .dot
    | .arrow => return .member left (← expectName "member name") .arrow
    | .doubleColon => return .member left (← expectName "member name") .static
    | .increment =>
      if left.isTarget then return .step left .increment
      else fail (.misuse .stepTarget t.position)
    | .decrement =>
      if left.isTarget then return .step left .decrement
      else fail (.misuse .stepTarget t.position)
    | m =>
      match m.binaryOp? with
      | some op =>
        skipNewlines
        return .binary left op (← g.expression op.level)
      | none => fail (.unexpected "operator" t.lexeme t.position)
  | _ => fail (.unexpected "operator" t.lexeme t.position)

/-- An operand and everything behind it that binds more tightly than `level`. -/
def climb (level : Level) : Parse Expr := do
  let first ← g.operand
  loop first fun left => do
    if level.rank < (← peek).level.rank then return .more (← g.extend left)
    else return .done left

def expressionOf (level : Level) : Parse Expr := do
  if maxDepth ≤ (← depth) then fail (.misuse .nestingTooDeep (← token).position)
  else nested (g.climb level)

end Grammar

end RouteScript
