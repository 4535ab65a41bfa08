/-!
# Programs

Statements and expressions as trees. Expressions may hold statements, in blocks and function
literals, so both kinds of tree and the declarations inside them are defined together.
-/

namespace RouteScript

/-- How a member is reached: `a.b`, `a->b` or `a::b`. -/
inductive Access where
  | dot | arrow | static
  deriving DecidableEq

inductive BinaryOp where
  | add | subtract | multiply | divide | modulo | equal | notEqual | less | greater | lessEqual
  | greaterEqual | and | or | nullCoalesce | shiftLeft | shiftRight | pipe
  deriving DecidableEq

inductive UnaryOp where
  | not | negate
  deriving DecidableEq

inductive StepOp where
  | increment | decrement
  deriving DecidableEq

structure Parameter where
  name : String
  typeName : Option String

mutual

inductive Expr where
  | int (value : Int64)
  | float (value : Float)
  | text (value : String)
  | bool (value : Bool)
  | nil
  | name (word : String)
  | this
  | call (callee : Expr) (arguments : List Expr)
  | create (className : String) (arguments : List Expr)
  | member (object : Expr) (property : String) (access : Access)
  /-- An element of a container; without a key it is the place behind the last element. -/
  | index (target : Expr) (key : Option Expr)
  | assign (target value : Expr)
  /-- A choice between two blocks; without the first one a true condition is its own result. -/
  | choice (condition : Expr) (consequence : Option (List Stmt)) (alternative : List Stmt)
  | binary (left : Expr) (op : BinaryOp) (right : Expr)
  | unary (op : UnaryOp) (operand : Expr)
  | step (operand : Expr) (op : StepOp)
  | array (items : List Expr)
  | map (pairs : List (Expr × Expr))
  | block (body : List Stmt)
  | function (decl : FunctionDecl)
  | isset (operands : List Expr)
  | empty (operand : Expr)

inductive Stmt where
  | declare (typeName name : String) (value : Option Expr)
  | classDef (decl : ClassDecl)
  | functionDef (decl : FunctionDecl)
  | forEach (iterable : Expr) (key : Option String) (value : String) (body : List Stmt)
  | whileLoop (condition : Expr) (body : List Stmt)
  | doWhile (body : List Stmt) (condition : Expr)
  | tryCatch (body : List Stmt) (caught : String) (handler : List Stmt)
  | branch (condition : Expr) (consequence : List Stmt) (alternative : Option (List Stmt))
  | select (subject : Expr) (cases : List (Expr × List Stmt)) (fallback : Option (List Stmt))
  | raise (value : Expr)
  | returns (value : Option Expr)
  | breaks
  | continues
  | load (path : String)
  | package (name : String)
  | echo (value : Expr)
  | expr (value : Expr)

/-- A function, method or initializer. One without a body is carried out by the host. -/
structure FunctionDecl where
  name : String
  params : List Parameter
  body : Option (List Stmt)
  isInit : Bool

structure PropertyDecl where
  name : String
  typeName : Option String
  initial : Option Expr

/-- A class with at most one parent, named but not necessarily declared yet. -/
structure ClassDecl where
  name : String
  parent : Option String
  properties : List PropertyDecl
  methods : List FunctionDecl

end

abbrev Block := List Stmt

structure Program where
  statements : Block

def BinaryOp.symbol : BinaryOp → String
  | .add => "+"
  | .subtract => "-"
  | .multiply => "*"
  | .divide => "/"
  | .modulo => "%"
  | .equal => "=="
  | .notEqual => "!="
  | .less => "<"
  | .greater => ">"
  | .lessEqual => "<="
  | .greaterEqual => ">="
  | .and => "&&"
  | .or => "||"
  | .nullCoalesce => "??"
  | .shiftLeft => "<<"
  | .shiftRight => ">>"
  | .pipe => "|>"

def StepOp.symbol : StepOp → String
  | .increment => "++"
  | .decrement => "--"

def FunctionDecl.hosted (name : String) : FunctionDecl := ⟨name, [], none, false⟩

def ClassDecl.bare (name : String) : ClassDecl := ⟨name, none, [], []⟩

def ClassDecl.method? (decl : ClassDecl) (name : String) : Option FunctionDecl :=
  decl.methods.find? (·.name == name)

end RouteScript
