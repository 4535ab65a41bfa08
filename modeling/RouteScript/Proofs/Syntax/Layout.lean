import Mathlib.Data.List.Forall2
import RouteScript.Proofs.Syntax.Written
import RouteScript.Syntax.Statement

/-!
# Layouts

A written program, cut into pieces: lexemes that stand as they are, and the places inside
parentheses, brackets and braces where line ends may stand. `Expr.LaidOut` and `Stmt.LaidOut` say
which pieces an expression or a statement can be made of. They give every list of arguments, every
array, map and parameter list, every pair of parentheses and every index its places, at any depth.
A layout is loosened by line ends at these places and by commas behind last items.

Binding levels play no part here: of the trees with a layout, the one that is read is settled by the
readers.
-/

namespace RouteScript

inductive Piece where
  /-- A lexeme. -/
  | fixed (l : Lexeme)
  /-- Any number of line ends. -/
  | gap (n : Nat)
  /-- What stands between the last item of a list and the closing mark: line ends, and maybe a comma
  with further line ends behind it. -/
  | ending (n : Nat) (comma : Option Nat)

namespace Piece

abbrev mark (m : Mark) : Piece := .fixed (.mark m)

abbrev keyword (k : Keyword) : Piece := .fixed (.keyword k)

def lexemes : Piece → List Lexeme
  | .fixed l => [l]
  | .gap n | .ending n none => List.replicate n .newline
  | .ending n (some m) => List.replicate n .newline ++ .mark .comma :: List.replicate m .newline

/-- Put further line ends into a gap, or a comma behind a last item that has none. -/
inductive Loosens : Piece → Piece → Prop
  | fixed (l : Lexeme) : Loosens (.fixed l) (.fixed l)
  | gap {n n' : Nat} : n ≤ n' → Loosens (.gap n) (.gap n')
  | ending {n n' : Nat} : n ≤ n' → Loosens (.ending n none) (.ending n' none)
  /-- The line ends that are there may come to stand before the comma and behind it. -/
  | comma {n n' m' : Nat} : n ≤ n' + m' → Loosens (.ending n none) (.ending n' (some m'))
  | behind {n n' m m' : Nat} :
    n ≤ n' → m ≤ m' → Loosens (.ending n (some m)) (.ending n' (some m'))

end Piece

def lexemesOf (ps : List Piece) : List Lexeme := ps.flatMap Piece.lexemes

abbrev Loosened : List Piece → List Piece → Prop := List.Forall₂ Piece.Loosens

/-- Pieces that are lexemes of one kind, such as line ends where they mean something. -/
def Stretch (kind : Lexeme → Bool) (ps : List Piece) : Prop :=
  ∃ ls : List Lexeme, (∀ l ∈ ls, kind l = true) ∧ ps = ls.map .fixed

section Lists

variable {α : Type} (R : α → List Piece → Prop)

/-- Items with commas between them, and gaps on both sides of each comma. -/
inductive Listed : List α → List Piece → Prop
  | one {a : α} {p : List Piece} : R a p → Listed [a] p
  | more {a : α} {as : List α} {p q : List Piece} (n m : Nat) : R a p → Listed as q →
    Listed (a :: as) (p ++ .gap n :: .mark .comma :: .gap m :: q)

/-- What stands behind the mark that opens a list, up to and with the one that closes it. -/
inductive Enclosed (close : Mark) : List α → List Piece → Prop
  | none (n : Nat) : Enclosed close [] [.gap n, .mark close]
  | some {as : List α} {p : List Piece} (n m : Nat) (comma : Option Nat) : Listed R as p →
    Enclosed close as (.gap n :: (p ++ [.ending m comma, .mark close]))

/-- Items one after another, with line ends and semicolons between them. -/
inductive Sequence : List α → List Piece → Prop
  | nil {b : List Piece} : Stretch Parse.isSeparator b → Sequence [] b
  | cons {a : α} {as : List α} {b p q : List Piece} : Stretch Parse.isSeparator b → R a p →
    Sequence as q → Sequence (a :: as) (b ++ (p ++ q))

inductive Led (l : Lexeme) : Option α → List Piece → Prop
  | none : Led l none []
  | some {a : α} {p : List Piece} : R a p → Led l (some a) (.fixed l :: p)

end Lists

inductive Named : String → List Piece → Prop
  | mk {l : Lexeme} {word : String} : l.word? = some word → Named word [.fixed l]

inductive Variable : String → List Piece → Prop
  | mk {l : Lexeme} {word : String} : l.word? = some word →
    Variable word [.mark .dollar, .fixed l]

/-- A parameter with its type, if it has one. -/
inductive Parameter.LaidOut : Parameter → List Piece → Prop
  | plain {name : String} {p : List Piece} : Variable name p → LaidOut ⟨name, none⟩ p
  | typed {name word : String} {p : List Piece} : Variable name p →
    LaidOut ⟨name, some word⟩ (.fixed (.name word) :: p)

/-- A list of parameters. No comma may stand behind the last one. -/
inductive Parameter.AllLaidOut : List Parameter → List Piece → Prop
  | none (n : Nat) : AllLaidOut [] [.mark .leftParen, .gap n, .mark .rightParen]
  | some {params : List Parameter} {p : List Piece} (n m : Nat) :
    Listed Parameter.LaidOut params p →
    AllLaidOut params (.mark .leftParen :: .gap n :: (p ++ [.gap m, .mark .rightParen]))

mutual

/-- The pieces that an expression can be made of. -/
inductive Expr.LaidOut : Expr → List Piece → Prop
  | int (n : Int64) : Expr.LaidOut (.int n) [.fixed (.integer n)]
  | float (x : Float) : Expr.LaidOut (.float x) [.fixed (.float x)]
  | text (s : String) : Expr.LaidOut (.text s) [.fixed (.text s)]
  | true : Expr.LaidOut (.bool true) [.keyword .trueKw]
  | false : Expr.LaidOut (.bool false) [.keyword .falseKw]
  | nil : Expr.LaidOut .nil [.keyword .nilKw]
  | this : Expr.LaidOut .this [.keyword .thisKw]
  | dollarThis : Expr.LaidOut .this [.mark .dollar, .keyword .thisKw]
  | name (word : String) : Expr.LaidOut (.name word) [.fixed (.name word)]
  | dollar {word : String} {p : List Piece} : Variable word p → Expr.LaidOut (.name word) p
  | echo : Expr.LaidOut (.name "echo") [.keyword .echoKw]
  | print : Expr.LaidOut (.name "print") [.keyword .printKw]
  /-- Parentheses leave no trace in the tree. -/
  | parens {e : Expr} {p : List Piece} : Parenthesized e p → Expr.LaidOut e p
  | call {callee : Expr} {args : List Expr} {p q : List Piece} : Expr.LaidOut callee p →
    Enclosed Expr.LaidOut .rightParen args q →
    Expr.LaidOut (.call callee args) (p ++ .mark .leftParen :: q)
  | create {name : String} {p : List Piece} : Named name p →
    Expr.LaidOut (.create name []) (.keyword .newKw :: p)
  | createWith {name : String} {args : List Expr} {p q : List Piece} : Named name p →
    Enclosed Expr.LaidOut .rightParen args q →
    Expr.LaidOut (.create name args) (.keyword .newKw :: (p ++ .mark .leftParen :: q))
  | member {object : Expr} {name : String} {p q : List Piece} (access : Access) :
    Expr.LaidOut object p → Named name q →
    Expr.LaidOut (.member object name access) (p ++ .mark access.mark :: q)
  | index {target key : Expr} {p q : List Piece} (n m : Nat) : Expr.LaidOut target p →
    Expr.LaidOut key q →
    Expr.LaidOut (.index target (some key))
      (p ++ .mark .leftBracket :: .gap n :: (q ++ [.gap m, .mark .rightBracket]))
  | behindLast {target : Expr} {p : List Piece} (n : Nat) : Expr.LaidOut target p →
    Expr.LaidOut (.index target none) (p ++ [.mark .leftBracket, .gap n, .mark .rightBracket])
  | assign {target value : Expr} {p b q : List Piece} : Expr.LaidOut target p →
    Stretch Lexeme.isNewline b → Expr.LaidOut value q →
    Expr.LaidOut (.assign target value) (p ++ .mark .assign :: (b ++ q))
  | binary {left right : Expr} {op : BinaryOp} {p b q : List Piece} : Expr.LaidOut left p →
    Stretch Lexeme.isNewline b → Expr.LaidOut right q →
    Expr.LaidOut (.binary left op right) (p ++ .mark op.mark :: (b ++ q))
  | unary {e : Expr} {p : List Piece} (op : UnaryOp) : Expr.LaidOut e p →
    Expr.LaidOut (.unary op e) (.mark op.mark :: p)
  | step {e : Expr} {p : List Piece} (op : StepOp) : Expr.LaidOut e p →
    Expr.LaidOut (.step e op) (p ++ [.mark op.mark])
  | choice {condition : Expr} {yes no : Block} {p q b r : List Piece} :
    Expr.LaidOut condition p → Branch yes q → Stretch Lexeme.isNewline b → Branch no r →
    Expr.LaidOut (.choice condition (some yes) no)
      (p ++ .mark .question :: (q ++ (b ++ .mark .colon :: r)))
  | otherwise {condition : Expr} {no : Block} {p r : List Piece} :
    Expr.LaidOut condition p → Branch no r →
    Expr.LaidOut (.choice condition none no) (p ++ .mark .question :: .mark .colon :: r)
  | array {items : List Expr} {p : List Piece} : Enclosed Expr.LaidOut .rightBracket items p →
    Expr.LaidOut (.array items) (.mark .leftBracket :: p)
  | emptyMap (n : Nat) : Expr.LaidOut (.map []) [.mark .leftBrace, .gap n, .mark .rightBrace]
  | map {pairs : List (Expr × Expr)} {p : List Piece} (n m : Nat) (comma : Option Nat) :
    Entries pairs p →
    Expr.LaidOut (.map pairs)
      (.mark .leftBrace :: .gap n :: (p ++ [.ending m comma, .mark .rightBrace]))
  | block {stmts : Block} {p : List Piece} (n : Nat) : Sequence Stmt.LaidOut stmts p →
    Expr.LaidOut (.block stmts) (.mark .leftBrace :: .gap n :: (p ++ [.mark .rightBrace]))
  | function {name : String} {params : List Parameter} {body : Block} {p q : List Piece} :
    Parameter.AllLaidOut params p → Braced body q →
    Expr.LaidOut (.function ⟨name, params, some body, false⟩)
      (.keyword .functionKw :: .fixed (.name name) :: (p ++ q))
  | anonymous {params : List Parameter} {body : Block} {p q : List Piece} :
    Parameter.AllLaidOut params p → Braced body q →
    Expr.LaidOut (.function ⟨RouteScript.anonymous, params, some body, false⟩)
      (.keyword .functionKw :: (p ++ q))
  | isset {args : List Expr} {p : List Piece} : Enclosed Expr.LaidOut .rightParen args p →
    Expr.LaidOut (.isset args) (.keyword .issetKw :: .mark .leftParen :: p)
  /-- Unlike other parentheses, these have no gaps. -/
  | empty {e : Expr} {p : List Piece} : Expr.LaidOut e p →
    Expr.LaidOut (.empty e) (.keyword .emptyKw :: .mark .leftParen :: (p ++ [.mark .rightParen]))

/-- Parentheses around an expression, with a gap inside each of them. -/
inductive Parenthesized : Expr → List Piece → Prop
  | mk {e : Expr} {p : List Piece} (n m : Nat) : Expr.LaidOut e p →
    Parenthesized e (.mark .leftParen :: .gap n :: (p ++ [.gap m, .mark .rightParen]))

/-- A branch of a choice: an expression, or a block without further marks. -/
inductive Branch : Block → List Piece → Prop
  | expr {e : Expr} {b p : List Piece} : Stretch Lexeme.isNewline b → Expr.LaidOut e p →
    Branch [.expr e] (b ++ p)
  | block {stmts : Block} {b p : List Piece} : Stretch Lexeme.isNewline b →
    Expr.LaidOut (.block stmts) p → Branch stmts (b ++ p)

/-- A key of a map; a bare name stands for its spelling. -/
inductive Key : Expr → List Piece → Prop
  | name (word : String) : Key (.text word) [.fixed (.name word)]
  | expr {e : Expr} {p : List Piece} : Expr.LaidOut e p → Key e p

/-- The entries of a map. Between two of them stands a comma with gaps on both sides, or there are
only line ends. -/
inductive Entries : List (Expr × Expr) → List Piece → Prop
  | one {key value : Expr} {p q : List Piece} (n : Nat) : Key key p → Expr.LaidOut value q →
    Entries [(key, value)] (p ++ .mark .colon :: .gap n :: q)
  | comma {key value : Expr} {rest : List (Expr × Expr)} {p q r : List Piece} (n m k : Nat) :
    Key key p → Expr.LaidOut value q → Entries rest r →
    Entries ((key, value) :: rest)
      (p ++ .mark .colon :: .gap n :: (q ++ .gap m :: .mark .comma :: .gap k :: r))
  | bare {key value : Expr} {rest : List (Expr × Expr)} {p q b r : List Piece} (n : Nat) :
    Key key p → Expr.LaidOut value q → Stretch Lexeme.isNewline b → Entries rest r →
    Entries ((key, value) :: rest) (p ++ .mark .colon :: .gap n :: (q ++ (b ++ r)))

/-- The pieces that a statement can be made of, without what ends it. -/
inductive Stmt.LaidOut : Stmt → List Piece → Prop
  | declare {typeName name : String} {value : Option Expr} {p q r : List Piece} :
    Named typeName p → Variable name q → Led Expr.LaidOut (.mark .assign) value r →
    Stmt.LaidOut (.declare typeName name value) (p ++ (q ++ r))
  | classDef {name : String} {parent : Option String} {properties : List PropertyDecl}
    {methods : List FunctionDecl} {p q b r : List Piece} :
    Named name p → Led Named (.keyword .extendsKw) parent q → Stretch Lexeme.isNewline b →
    Members properties methods r →
    Stmt.LaidOut (.classDef ⟨name, parent, properties, methods⟩)
      (.keyword .classKw :: (p ++ (q ++ (b ++ .mark .leftBrace :: r))))
  | functionDef {decl : FunctionDecl} {p : List Piece} : FunctionDecl.LaidOut decl p →
    Stmt.LaidOut (.functionDef decl) p
  | forEach {iterable : Expr} {name : String} {body : Block} {p q r : List Piece} :
    Expr.LaidOut iterable p → Variable name q → Braced body r →
    Stmt.LaidOut (.forEach iterable none name body)
      (.keyword .foreachKw :: .mark .leftParen ::
        (p ++ .keyword .asKw :: (q ++ .mark .rightParen :: r)))
  | forEachKey {iterable : Expr} {key name : String} {body : Block} {p k q r : List Piece} :
    Expr.LaidOut iterable p → Variable key k → Variable name q → Braced body r →
    Stmt.LaidOut (.forEach iterable (some key) name body)
      (.keyword .foreachKw :: .mark .leftParen ::
        (p ++ .keyword .asKw :: (k ++ .mark .fatArrow :: (q ++ .mark .rightParen :: r))))
  | whileLoop {condition : Expr} {body : Block} {p q : List Piece} :
    Parenthesized condition p → Braced body q →
    Stmt.LaidOut (.whileLoop condition body) (.keyword .whileKw :: (p ++ q))
  | doWhile {condition : Expr} {body : Block} {p b q : List Piece} :
    Braced body p → Stretch Lexeme.isNewline b →
    Parenthesized condition q →
    Stmt.LaidOut (.doWhile body condition)
      (.keyword .doKw :: (p ++ (b ++ .keyword .whileKw :: q)))
  | tryCatch {caught : String} {body handler : Block} {p b q r : List Piece} :
    Braced body p → Stretch Lexeme.isNewline b →
    Named caught q ∨ Variable caught q → Braced handler r →
    Stmt.LaidOut (.tryCatch body caught handler)
      (.keyword .tryKw :: (p ++ (b ++ .keyword .catchKw :: .mark .leftParen ::
        (q ++ .mark .rightParen :: r))))
  | branch {condition : Expr} {yes : Block} {no : Option Block} {p q r : List Piece} :
    Parenthesized condition p → Braced yes q → Alternative no r →
    Stmt.LaidOut (.branch condition yes no) (.keyword .ifKw :: (p ++ (q ++ r)))
  | select {subject : Expr} {cases : List (Expr × Block)} {fallback : Option Block}
    {p b q : List Piece} :
    Parenthesized subject p → Stretch Lexeme.isNewline b →
    Clauses cases fallback q →
    Stmt.LaidOut (.select subject cases fallback)
      (.keyword .switchKw :: (p ++ (b ++ .mark .leftBrace :: q)))
  | raise {e : Expr} {p : List Piece} : Expr.LaidOut e p →
    Stmt.LaidOut (.raise e) (.keyword .throwKw :: p)
  | returns {e : Expr} {p : List Piece} : Expr.LaidOut e p →
    Stmt.LaidOut (.returns (some e)) (.keyword .returnKw :: p)
  | returnsNothing : Stmt.LaidOut (.returns none) [.keyword .returnKw]
  | breaks : Stmt.LaidOut .breaks [.keyword .breakKw]
  | continues : Stmt.LaidOut .continues [.keyword .continueKw]
  | load (path : String) : Stmt.LaidOut (.load path) [.keyword .importKw, .fixed (.text path)]
  /-- The name of a package is no expression, so parentheses in it have no gaps. -/
  | package {ls : List Lexeme} : (∀ l ∈ ls, l.endsStatement = false) →
    Stmt.LaidOut (.package (ls.foldl (fun name l => name ++ l.display) ""))
      (.keyword .namespaceKw :: ls.map .fixed)
  | echo {e : Expr} {p : List Piece} : Expr.LaidOut e p →
    Stmt.LaidOut (.echo e) (.keyword .echoKw :: p)
  | print {e : Expr} {p : List Piece} : Expr.LaidOut e p →
    Stmt.LaidOut (.echo e) (.keyword .printKw :: p)
  | expr {e : Expr} {p : List Piece} : Expr.LaidOut e p → Stmt.LaidOut (.expr e) p

/-- A block: line ends before the opening brace, and statements between the braces. -/
inductive Braced : Block → List Piece → Prop
  | mk {stmts : Block} {b p : List Piece} : Stretch Lexeme.isNewline b →
    Sequence Stmt.LaidOut stmts p →
    Braced stmts (b ++ .mark .leftBrace :: (p ++ [.mark .rightBrace]))

/-- What stands behind the first block of a statement with a condition. -/
inductive Alternative : Option Block → List Piece → Prop
  | none : Alternative none []
  | block {no : Block} {b p : List Piece} : Stretch Lexeme.isNewline b →
    Braced no p → Alternative (some no) (b ++ .keyword .elseKw :: p)
  | stmt {stmt : Stmt} {b p : List Piece} : Stretch Lexeme.isNewline b → Stmt.LaidOut stmt p →
    Alternative (some [stmt]) (b ++ .keyword .elseKw :: p)

/-- A function or initializer. -/
inductive FunctionDecl.LaidOut : FunctionDecl → List Piece → Prop
  | named {name : String} {params : List Parameter} {body : Block} {w p q : List Piece}
    (isInit : Bool) : Named name w → Parameter.AllLaidOut params p → Braced body q →
    FunctionDecl.LaidOut ⟨name, params, some body, isInit⟩
      (.keyword (functionKeyword isInit) :: (w ++ (p ++ q)))
  | nameless {params : List Parameter} {body : Block} {p q : List Piece} :
    Parameter.AllLaidOut params p → Braced body q →
    FunctionDecl.LaidOut ⟨"constructor", params, some body, true⟩ (.keyword .initKw :: (p ++ q))

/-- A property with its type, if it has one. -/
inductive PropertyDecl.LaidOut : PropertyDecl → List Piece → Prop
  | plain {name : String} {initial : Option Expr} {p q : List Piece} : Variable name p →
    Led Expr.LaidOut (.mark .assign) initial q →
    PropertyDecl.LaidOut ⟨name, none, initial⟩ (p ++ q)
  | typed {name word : String} {initial : Option Expr} {p q : List Piece} : Variable name p →
    Led Expr.LaidOut (.mark .assign) initial q →
    PropertyDecl.LaidOut ⟨name, some word, initial⟩ (.fixed (.name word) :: (p ++ q))

/-- The members of a class up to and with the closing brace. Properties and methods may stand in any
order, and words that change nothing between them. -/
inductive Members : List PropertyDecl → List FunctionDecl → List Piece → Prop
  | close {b : List Piece} : Stretch Parse.isSeparator b → Members [] [] (b ++ [.mark .rightBrace])
  | modifier {word : String} {properties : List PropertyDecl} {methods : List FunctionDecl}
    {b q : List Piece} : Stretch Parse.isSeparator b → Grammar.isModifier word = true →
    Members properties methods q → Members properties methods (b ++ .fixed (.name word) :: q)
  | property {decl : PropertyDecl} {properties : List PropertyDecl} {methods : List FunctionDecl}
    {b p t q : List Piece} : Stretch Parse.isSeparator b → PropertyDecl.LaidOut decl p →
    Stretch Parse.isSeparator t → Members properties methods q →
    Members (decl :: properties) methods (b ++ (p ++ (t ++ q)))
  | method {decl : FunctionDecl} {properties : List PropertyDecl} {methods : List FunctionDecl}
    {b p q : List Piece} : Stretch Parse.isSeparator b → FunctionDecl.LaidOut decl p →
    Members properties methods q → Members properties (decl :: methods) (b ++ (p ++ q))

/-- The cases and fallbacks of a choice up to and with the closing brace. The last of several
fallbacks counts. -/
inductive Clauses : List (Expr × Block) → Option Block → List Piece → Prop
  | close {b : List Piece} : Stretch Parse.isSeparator b →
    Clauses [] none (b ++ [.mark .rightBrace])
  | case {value : Expr} {body : Block} {cases : List (Expr × Block)} {fallback : Option Block}
    {b p q r : List Piece} : Stretch Parse.isSeparator b → Expr.LaidOut value p →
    Sequence Stmt.LaidOut body q → Clauses cases fallback r →
    Clauses ((value, body) :: cases) fallback
      (b ++ .keyword .caseKw :: (p ++ .mark .colon :: (q ++ r)))
  | fallback {body : Block} {cases : List (Expr × Block)} {later : Option Block}
    {b q r : List Piece} : Stretch Parse.isSeparator b → Sequence Stmt.LaidOut body q →
    Clauses cases later r →
    Clauses cases (later.or (some body)) (b ++ .keyword .defaultKw :: .mark .colon :: (q ++ r))

end

end RouteScript
