import RouteScript.Syntax.Basic
import RouteScript.Token.Basic

/-!
# Binding levels

How tightly a token binds the expression before it. A loose token ends an expression that was begun
at a tighter level.
-/

namespace RouteScript

inductive Level where
  | lowest | assign | choice | nullCoalesce | logical | equality | relational | pipe | additive
  | shift | multiplicative | modulo | unary | call | member
  deriving DecidableEq

namespace Level

def rank : Level → Nat
  | .lowest => 0
  | .assign => 1
  | .choice => 2
  | .nullCoalesce => 3
  | .logical => 4
  | .equality => 5
  | .relational => 6
  | .pipe => 7
  | .additive => 8
  | .shift => 9
  | .multiplicative => 10
  | .modulo => 11
  | .unary => 12
  | .call => 13
  | .member => 14

end Level

def BinaryOp.level : BinaryOp → Level
  | .nullCoalesce => .nullCoalesce
  | .and | .or => .logical
  | .equal | .notEqual => .equality
  | .less | .greater | .lessEqual | .greaterEqual => .relational
  | .pipe => .pipe
  | .add | .subtract => .additive
  | .shiftLeft | .shiftRight => .shift
  | .multiply | .divide => .multiplicative
  | .modulo => .modulo

def Mark.binaryOp? : Mark → Option BinaryOp
  | .plus => some .add
  | .minus => some .subtract
  | .star => some .multiply
  | .slash => some .divide
  | .percent => some .modulo
  | .equal => some .equal
  | .notEqual => some .notEqual
  | .less => some .less
  | .greater => some .greater
  | .lessEqual => some .lessEqual
  | .greaterEqual => some .greaterEqual
  | .and => some .and
  | .or => some .or
  | .nullCoalesce => some .nullCoalesce
  | .shiftLeft => some .shiftLeft
  | .shiftRight => some .shiftRight
  | .pipe => some .pipe
  | _ => none

def Mark.level (m : Mark) : Level :=
  match m with
  | .assign => .assign
  | .question => .choice
  | .leftParen | .increment | .decrement => .call
  | .leftBracket | .dot | .arrow | .doubleColon => .member
  | _ => (m.binaryOp?.map BinaryOp.level).getD .lowest

def Lexeme.level : Lexeme → Level
  | .mark m => m.level
  | _ => .lowest

end RouteScript
