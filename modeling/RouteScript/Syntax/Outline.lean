import RouteScript.Decimal.Layout
import RouteScript.Syntax.Basic
import RouteScript.Text.Quoted

/-!
# Outlines of programs

An outline shows a program as an indented tree, with a line for every part.
-/

namespace RouteScript

inductive Outline where
  | atom (text : String)
  | record (label : String) (fields : List (String × Outline))
  | group (label : String) (parts : List Outline)
  | items (parts : List Outline)

namespace Outline

def margin (level : Nat) : String := String.ofList (List.replicate (4 * level) ' ')

mutual

def render (level : Nat) : Outline → String
  | .atom text => text
  | .record label fields =>
    label ++ " \x7b\n" ++ renderFields (level + 1) fields ++ margin level ++ "\x7d"
  | .group label parts =>
    label ++ "(\n" ++ renderParts (level + 1) parts ++ margin level ++ ")"
  | .items [] => "[]"
  | .items parts => "[\n" ++ renderParts (level + 1) parts ++ margin level ++ "]"

def renderParts (level : Nat) : List Outline → String
  | [] => ""
  | part :: rest => margin level ++ render level part ++ ",\n" ++ renderParts level rest

def renderFields (level : Nat) : List (String × Outline) → String
  | [] => ""
  | (name, part) :: rest =>
    margin level ++ name ++ ": " ++ render level part ++ ",\n" ++ renderFields level rest

end

def text (s : String) : Outline := .atom (Text.quote s)

def bool (b : Bool) : Outline := .atom (if b then "true" else "false")

def optional : Option Outline → Outline
  | none => .atom "None"
  | some part => .group "Some" [part]

def optionalText (s : Option String) : Outline := optional (s.map text)

def ofAccess : Access → Outline
  | .dot => .atom "Dot"
  | .arrow => .atom "Arrow"
  | .static => .atom "Static"

def ofBinaryOp : BinaryOp → Outline
  | .add => .atom "Add"
  | .subtract => .atom "Subtract"
  | .multiply => .atom "Multiply"
  | .divide => .atom "Divide"
  | .modulo => .atom "Modulo"
  | .equal => .atom "Equal"
  | .notEqual => .atom "NotEqual"
  | .less => .atom "Less"
  | .greater => .atom "Greater"
  | .lessEqual => .atom "LessEqual"
  | .greaterEqual => .atom "GreaterEqual"
  | .and => .atom "And"
  | .or => .atom "Or"
  | .nullCoalesce => .atom "NullCoalesce"
  | .shiftLeft => .atom "ShiftLeft"
  | .shiftRight => .atom "ShiftRight"
  | .pipe => .atom "Pipe"

def ofUnaryOp : UnaryOp → Outline
  | .not => .atom "Not"
  | .negate => .atom "Negate"

def ofStepOp : StepOp → Outline
  | .increment => .atom "Increment"
  | .decrement => .atom "Decrement"

def ofParameter (p : Parameter) : Outline :=
  .record "Parameter" [("name", text p.name), ("type_name", optionalText p.typeName)]

mutual

def ofExpr : Expr → Outline
  | .int n => .group "Integer" [.atom (toString n)]
  | .float x => .group "Float" [.atom (Decimal.Layout.dump.render x)]
  | .text s => .group "Str" [text s]
  | .bool b => .group "Boolean" [bool b]
  | .nil => .atom "Nil"
  | .name word => .group "Identifier" [text word]
  | .this => .atom "This"
  | .call callee arguments =>
    .record "Call" [("function", ofExpr callee), ("arguments", .items (ofExprs arguments))]
  | .create className arguments =>
    .record "New" [("class", text className), ("arguments", .items (ofExprs arguments))]
  | .member object property access =>
    .record "Member" [("object", ofExpr object), ("property", text property),
      ("access", ofAccess access)]
  | .index target key =>
    .record "Index" [("target", ofExpr target), ("index", ofOptionalExpr key)]
  | .assign target value =>
    .record "Assign" [("target", ofExpr target), ("value", ofExpr value)]
  | .choice condition consequence alternative =>
    .record "Ternary" [("condition", ofExpr condition),
      ("consequence", ofOptionalBlock consequence), ("alternative", .items (ofBlock alternative))]
  | .binary left op right =>
    .record "Infix" [("left", ofExpr left), ("operator", ofBinaryOp op), ("right", ofExpr right)]
  | .unary op operand =>
    .record "Prefix" [("operator", ofUnaryOp op), ("operand", ofExpr operand)]
  | .step operand op =>
    .record "Postfix" [("operand", ofExpr operand), ("operator", ofStepOp op)]
  | .array parts => .group "Array" [.items (ofExprs parts)]
  | .map pairs => .group "Map" [.items (ofPairs pairs)]
  | .block body => .group "Block" [.items (ofBlock body)]
  | .function decl => .group "Function" [ofFunction decl]
  | .isset operands => .group "Isset" [.items (ofExprs operands)]
  | .empty operand => .group "Empty" [ofExpr operand]

def ofExprs : List Expr → List Outline
  | [] => []
  | e :: rest => ofExpr e :: ofExprs rest

def ofPairs : List (Expr × Expr) → List Outline
  | [] => []
  | (key, value) :: rest => .group "" [ofExpr key, ofExpr value] :: ofPairs rest

def ofOptionalExpr : Option Expr → Outline
  | none => .atom "None"
  | some e => .group "Some" [ofExpr e]

def ofOptionalBlock : Option (List Stmt) → Outline
  | none => .atom "None"
  | some body => .group "Some" [.items (ofBlock body)]

def ofBlock : List Stmt → List Outline
  | [] => []
  | stmt :: rest => ofStmt stmt :: ofBlock rest

def ofStmt : Stmt → Outline
  | .declare typeName name value =>
    .record "Let" [("type_name", text typeName), ("name", text name),
      ("value", ofOptionalExpr value)]
  | .classDef decl => .group "Class" [ofClass decl]
  | .functionDef decl => .group "Function" [ofFunction decl]
  | .forEach iterable key value body =>
    .record "Foreach" [("iterable", ofExpr iterable), ("key", optionalText key),
      ("value", text value), ("body", .items (ofBlock body))]
  | .whileLoop condition body =>
    .record "While" [("condition", ofExpr condition), ("body", .items (ofBlock body))]
  | .doWhile body condition =>
    .record "DoWhile" [("body", .items (ofBlock body)), ("condition", ofExpr condition)]
  | .tryCatch body caught handler =>
    .record "TryCatch" [("body", .items (ofBlock body)), ("catch_var", text caught),
      ("handler", .items (ofBlock handler))]
  | .branch condition consequence alternative =>
    .record "If" [("condition", ofExpr condition), ("consequence", .items (ofBlock consequence)),
      ("alternative", ofOptionalBlock alternative)]
  | .select subject cases fallback =>
    .record "Switch" [("subject", ofExpr subject), ("cases", .items (ofCases cases)),
      ("default", ofOptionalBlock fallback)]
  | .raise value => .group "Throw" [ofExpr value]
  | .returns value => .group "Return" [ofOptionalExpr value]
  | .breaks => .atom "Break"
  | .continues => .atom "Continue"
  | .load path => .group "Import" [text path]
  | .package name => .group "Namespace" [text name]
  | .echo value => .group "Echo" [ofExpr value]
  | .expr value => .group "Expression" [ofExpr value]

def ofCases : List (Expr × List Stmt) → List Outline
  | [] => []
  | (value, body) :: rest =>
    .record "SwitchCase" [("value", ofExpr value), ("body", .items (ofBlock body))] :: ofCases rest

def ofFunction : FunctionDecl → Outline
  | ⟨name, params, body, isInit⟩ =>
    .record "FunctionDecl" [("name", text name), ("params", .items (params.map ofParameter)),
      ("body", ofOptionalBlock body), ("is_init", bool isInit)]

def ofFunctions : List FunctionDecl → List Outline
  | [] => []
  | decl :: rest => ofFunction decl :: ofFunctions rest

def ofProperties : List PropertyDecl → List Outline
  | [] => []
  | ⟨name, typeName, initial⟩ :: rest =>
    .record "PropertyDecl" [("name", text name), ("type_name", optionalText typeName),
      ("default", ofOptionalExpr initial)] :: ofProperties rest

def ofClass : ClassDecl → Outline
  | ⟨name, parent, properties, methods⟩ =>
    .record "ClassDecl" [("name", text name), ("parent", optionalText parent),
      ("properties", .items (ofProperties properties)), ("methods", .items (ofFunctions methods))]

end

end Outline

def Program.outline (p : Program) : String :=
  Outline.render 0 (.record "Program" [("statements", .items (Outline.ofBlock p.statements))])

end RouteScript
