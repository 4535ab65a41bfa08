import RouteScript.Text.Split
import RouteScript.Token.Basic

/-!
# Diagnostics

What can be wrong with a source text, each with the place of the token that shows it.
-/

namespace RouteScript

inductive Misuse where
  | nestingTooDeep
  | assignmentTarget
  | stepTarget
  /-- Reading was given up because it took too many steps. No tokens lead to this. -/
  | unfinished

def Misuse.message : Misuse → String
  | .nestingTooDeep => "expression nesting too deep"
  | .assignmentTarget => "invalid target for assignment"
  | .stepTarget => "invalid target for postfix operator"
  | .unfinished => "reading given up"

inductive Diagnostic where
  /-- Another token stands where something was expected. -/
  | unexpected (expected : String) (found : Lexeme) (place : Position)
  /-- The source ends where something was expected. -/
  | endOfInput (expected : String) (place : Position)
  /-- No expression starts with this token. -/
  | noExpression (found : Lexeme) (place : Position)
  | misuse (cause : Misuse) (place : Position)

namespace Diagnostic

def place : Diagnostic → Position
  | .unexpected _ _ p => p
  | .endOfInput _ p => p
  | .noExpression _ p => p
  | .misuse _ p => p

def placed (p : Position) : String :=
  " at line " ++ toString p.line ++ ", column " ++ toString p.column

def message : Diagnostic → String
  | .unexpected expected found p =>
    "expected next token to be " ++ expected ++ ", got " ++ found.display ++ " instead" ++ placed p
  | .endOfInput expected p => "unexpected end of input, expected " ++ expected ++ placed p
  | .noExpression found p =>
    "no prefix parse function for " ++ found.display ++ " found" ++ placed p
  | .misuse cause p => "invalid syntax: " ++ cause.message ++ placed p

def messages (ds : List Diagnostic) : String := Text.join "\n" (ds.map message)

end Diagnostic

end RouteScript
