import RouteScript.Syntax.Statement
import RouteScript.Token.Lexer

/-!
# Reading programs

The statements of a source text are read one after another. After a diagnostic the rest of the line
is passed over and reading goes on, so one run finds several faults. A program with a fault is not
run.
-/

namespace RouteScript

mutual

def expressionWithin : Nat → Level → Parse Expr
  | 0, _ => .giveUp
  | n + 1, level => .delay fun _ => Grammar.expressionOf ⟨expressionWithin n, bodyWithin n⟩ level

def bodyWithin : Nat → Parse Stmt
  | 0 => .giveUp
  | n + 1 => .delay fun _ => Grammar.bodyOf ⟨expressionWithin n, bodyWithin n⟩

end

/-- The readers for a stream. Every construct inside another one starts behind a token of the outer
one, so no nesting is deeper than the stream is long. -/
def Grammar.ofLength (n : Nat) : Grammar := ⟨expressionWithin (n + 1), bodyWithin (n + 1)⟩

def Stream.statement (s : Stream) : Parsed Stmt := (Grammar.ofLength s.length).statement 0 s

def Stream.resume (s : Stream) : Stream := (s.dropWhile (!Parse.isSeparator ·)).tail

/-- What was found in a source text. -/
structure Reading where
  statements : Block
  diagnostics : List Diagnostic

/-- Read statements to the end of the stream; `n` bounds their number. -/
def Stream.statements : Nat → Stream → Reading
  | 0, _ => ⟨[], []⟩
  | n + 1, s =>
    let s := s.dropWhile Parse.isSeparator
    if s.tokens.isEmpty then ⟨[], []⟩
    else
      match s.statement with
      | .ok stmt rest =>
        let later := Stream.statements n rest
        { later with statements := stmt :: later.statements }
      | .error fault rest =>
        let later := Stream.statements n rest.resume
        { later with diagnostics := fault :: later.diagnostics }

/-- Read all the statements of a stream. Each takes at least one token. -/
def Stream.read (s : Stream) : Reading := s.statements (s.length + 1)

namespace Cursor

variable {source : Source}

def statement (c : Cursor source) : EStateM.Result Diagnostic (Cursor source) Stmt :=
  (Grammar.ofLength c.stream.length).statement.exec c

def resume (c : Cursor source) : Cursor source := (c.skipWhile (!Parse.isSeparator ·)).advance

/-- Read statements to the end of the source; `n` bounds their number. The cursor goes from one to
the next as the last one has left it, after a fault too. -/
def statements : Nat → Cursor source → Reading
  | 0, _ => ⟨[], []⟩
  | n + 1, c =>
    let c := c.skipWhile Parse.isSeparator
    if c.atEnd then ⟨[], []⟩
    else
      match c.statement with
      | .ok stmt c' =>
        let later := statements n c'
        { later with statements := stmt :: later.statements }
      | .error fault c' =>
        let later := statements n c'.resume
        { later with diagnostics := fault :: later.diagnostics }

def read (c : Cursor source) : Reading := c.statements (c.stream.length + 1)

end Cursor

def Reading.ofSource (source : String) : Reading :=
  (Cursor.start (.ofTokens (Token.tokenize source))).read

def Program.ofSource (source : String) : Except (List Diagnostic) Program :=
  let found := Reading.ofSource source
  if found.diagnostics.isEmpty then .ok ⟨found.statements⟩ else .error found.diagnostics

end RouteScript
