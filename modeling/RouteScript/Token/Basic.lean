import RouteScript.Decimal.Layout

/-!
# Tokens

The words of the language: literals, names, keywords and marks, each with the place in the source
where it starts.
-/

namespace RouteScript

/-- A place in a source text. Lines and columns count from one, offsets from zero, and columns and
offsets count characters. -/
structure Position where
  line : Nat
  column : Nat
  offset : Nat
  deriving DecidableEq, Inhabited

namespace Position

def start : Position := ⟨1, 1, 0⟩

def advance (p : Position) (c : Char) : Position :=
  if c = '\n' then ⟨p.line + 1, 1, p.offset + 1⟩ else ⟨p.line, p.column + 1, p.offset + 1⟩

def after (p : Position) (l : List Char) : Position := l.foldl advance p

end Position

inductive Keyword where
  | trueKw | falseKw | nilKw | returnKw | classKw | initKw | namespaceKw | importKw | newKw
  | foreachKw | asKw | functionKw | thisKw | echoKw | printKw | issetKw | emptyKw | whileKw
  | doKw | tryKw | catchKw | throwKw | extendsKw | breakKw | continueKw | ifKw | elseKw
  | switchKw | caseKw | defaultKw
  deriving DecidableEq

namespace Keyword

def spelling : Keyword → String
  | .trueKw => "true"
  | .falseKw => "false"
  | .nilKw => "nil"
  | .returnKw => "return"
  | .classKw => "class"
  | .initKw => "Init"
  | .namespaceKw => "Namespace"
  | .importKw => "import"
  | .newKw => "new"
  | .foreachKw => "foreach"
  | .asKw => "as"
  | .functionKw => "function"
  | .thisKw => "this"
  | .echoKw => "echo"
  | .printKw => "print"
  | .issetKw => "isset"
  | .emptyKw => "empty"
  | .whileKw => "while"
  | .doKw => "do"
  | .tryKw => "try"
  | .catchKw => "catch"
  | .throwKw => "throw"
  | .extendsKw => "extends"
  | .breakKw => "break"
  | .continueKw => "continue"
  | .ifKw => "if"
  | .elseKw => "else"
  | .switchKw => "switch"
  | .caseKw => "case"
  | .defaultKw => "default"

/-- Every spelling in source texts with its keyword; some keywords have several. -/
def table : List (String × Keyword) :=
  [("true", .trueKw), ("false", .falseKw), ("nil", .nilKw), ("null", .nilKw), ("return", .returnKw),
   ("class", .classKw), ("Init", .initKw), ("Namespace", .namespaceKw), ("Import", .importKw),
   ("import", .importKw), ("@import", .importKw), ("new", .newKw), ("foreach", .foreachKw),
   ("as", .asKw), ("function", .functionKw), ("func", .functionKw), ("this", .thisKw),
   ("echo", .echoKw), ("print", .printKw), ("isset", .issetKw), ("empty", .emptyKw),
   ("while", .whileKw), ("do", .doKw), ("try", .tryKw), ("catch", .catchKw), ("throw", .throwKw),
   ("extends", .extendsKw), ("break", .breakKw), ("continue", .continueKw), ("if", .ifKw),
   ("else", .elseKw), ("switch", .switchKw), ("case", .caseKw), ("default", .defaultKw)]

def ofWord? (word : String) : Option Keyword := table.lookup word

end Keyword

inductive Mark where
  | assign | plus | minus | star | slash | percent | bang | less | greater | equal | notEqual
  | lessEqual | greaterEqual | shiftLeft | shiftRight | doubleColon | arrow | fatArrow | and | or
  | nullCoalesce | pipe | increment | decrement | dot | question | comma | semicolon | colon
  | leftParen | rightParen | leftBrace | rightBrace | leftBracket | rightBracket | dollar
  deriving DecidableEq

namespace Mark

def spelling : Mark → String
  | .assign => "="
  | .plus => "+"
  | .minus => "-"
  | .star => "*"
  | .slash => "/"
  | .percent => "%"
  | .bang => "!"
  | .less => "<"
  | .greater => ">"
  | .equal => "=="
  | .notEqual => "!="
  | .lessEqual => "<="
  | .greaterEqual => ">="
  | .shiftLeft => "<<"
  | .shiftRight => ">>"
  | .doubleColon => "::"
  | .arrow => "->"
  | .fatArrow => "=>"
  | .and => "&&"
  | .or => "||"
  | .nullCoalesce => "??"
  | .pipe => "|>"
  | .increment => "++"
  | .decrement => "--"
  | .dot => "."
  | .question => "?"
  | .comma => ","
  | .semicolon => ";"
  | .colon => ":"
  | .leftParen => "("
  | .rightParen => ")"
  | .leftBrace => "\x7b"
  | .rightBrace => "\x7d"
  | .leftBracket => "["
  | .rightBracket => "]"
  | .dollar => "$"

def ofPair? : Char → Char → Option Mark
  | '=', '=' => some .equal
  | '=', '>' => some .fatArrow
  | '!', '=' => some .notEqual
  | '<', '=' => some .lessEqual
  | '>', '=' => some .greaterEqual
  | '<', '<' => some .shiftLeft
  | '>', '>' => some .shiftRight
  | ':', ':' => some .doubleColon
  | '-', '>' => some .arrow
  | '&', '&' => some .and
  | '|', '|' => some .or
  | '|', '>' => some .pipe
  | '?', '?' => some .nullCoalesce
  | '+', '+' => some .increment
  | '-', '-' => some .decrement
  | _, _ => none

def ofChar? : Char → Option Mark
  | '=' => some .assign
  | '+' => some .plus
  | '-' => some .minus
  | '*' => some .star
  | '/' => some .slash
  | '%' => some .percent
  | '!' => some .bang
  | '<' => some .less
  | '>' => some .greater
  | '.' => some .dot
  | '?' => some .question
  | ',' => some .comma
  | ';' => some .semicolon
  | ':' => some .colon
  | '(' => some .leftParen
  | ')' => some .rightParen
  | '\x7b' => some .leftBrace
  | '\x7d' => some .rightBrace
  | '[' => some .leftBracket
  | ']' => some .rightBracket
  | '$' => some .dollar
  | _ => none

end Mark

inductive Lexeme where
  | integer (value : Int64)
  | float (value : Float)
  | text (value : String)
  | name (word : String)
  /-- Characters that start no token, and whole numbers that are too large. -/
  | illegal (spelling : String)
  | keyword (word : Keyword)
  | mark (mark : Mark)
  | newline
  | eof

namespace Lexeme

def display : Lexeme → String
  | .integer n => toString n
  | .float x => Decimal.Layout.plain.render x
  | .text s => "\"" ++ s ++ "\""
  | .name w => w
  | .illegal s => "ILLEGAL(" ++ s ++ ")"
  | .keyword k => k.spelling
  | .mark m => m.spelling
  | .newline => "NEWLINE"
  | .eof => "EOF"

def isMark (m : Mark) : Lexeme → Bool
  | .mark m' => m' == m
  | _ => false

def isKeyword (k : Keyword) : Lexeme → Bool
  | .keyword k' => k' == k
  | _ => false

def isNewline : Lexeme → Bool
  | .newline => true
  | _ => false

def isEof : Lexeme → Bool
  | .eof => true
  | _ => false

def isName : Lexeme → Bool
  | .name _ => true
  | _ => false

end Lexeme

structure Token where
  lexeme : Lexeme
  position : Position

end RouteScript
