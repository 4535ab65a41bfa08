import RouteScript.Syntax.Cursor

/-!
# Readers

A reader moves a cursor over its tokens and gives a result or a diagnostic; in both cases the cursor
says where it has come to. Beside that stands what the reader does to streams: it takes tokens off
the front, and the depth of expressions around the current place is handed down and never changes.
Each reader comes with the proof that the two agree. So however a reader ends, its cursor counts as
many expressions as before, and what it finds does not depend on the tokens behind the cursor.
-/

namespace RouteScript

inductive Parsed (α : Type) where
  | ok (value : α) (rest : Stream)
  | error (fault : Diagnostic) (rest : Stream)

/-- From a cursor on, a parser ends like a reader of its stream: with the same result or the same
fault, and in front of the tokens that are left. It counts as many expressions as before. -/
inductive Cursor.Follows {source : Source} (c : Cursor source) {α : Type} :
    EStateM.Result Diagnostic (Cursor source) α → Parsed α → Prop
  | ok {a : α} {c' : Cursor source} {rest : Stream} (depth : c'.depth = c.depth)
    (stream : c'.stream = rest) : c.Follows (.ok a c') (.ok a rest)
  | error {fault : Diagnostic} {c' : Cursor source} {rest : Stream} (depth : c'.depth = c.depth)
    (stream : c'.stream = rest) : c.Follows (.error fault c') (.error fault rest)

@[ext]
structure Parse (α : Type) where
  /-- What is read from a stream, given the depth of expressions around it. -/
  run : Nat → Stream → Parsed α
  /-- How a cursor is moved. -/
  exec {source : Source} : Cursor source → EStateM.Result Diagnostic (Cursor source) α
  follows {source : Source} (c : Cursor source) : c.Follows (exec c) (run c.depth c.stream)

instance {α : Type} : CoeFun (Parse α) fun _ => Nat → Stream → Parsed α := ⟨Parse.run⟩

namespace Parse

variable {α β σ : Type}

instance : Monad Parse where
  pure a := {
    run _ s := .ok a s
    exec c := .ok a c
    follows _ := .ok rfl rfl }
  bind m k := {
    run depth s :=
      match m depth s with
      | .ok a rest => k a depth rest
      | .error d rest => .error d rest
    exec c :=
      match m.exec c with
      | .ok a c' => (k a).exec c'
      | .error d c' => .error d c'
    follows c := by
      have hm := m.follows c
      revert hm
      generalize m.exec c = moved, m.run c.depth c.stream = found
      rintro (⟨hdepth, rfl⟩ | ⟨hdepth, rfl⟩)
      · rename_i a c'
        have hk := (k a).follows c'
        rw [hdepth] at hk
        revert hk
        dsimp only
        generalize (k a).exec c' = moved, (k a).run c.depth c'.stream = found
        rintro (⟨hdepth', rfl⟩ | ⟨hdepth', rfl⟩)
        · exact .ok (hdepth'.trans hdepth) rfl
        · exact .error (hdepth'.trans hdepth) rfl
      · exact .error hdepth rfl }

def delay (m : Unit → Parse α) : Parse α where
  run d s := (m ()).run d s
  exec c := (m ()).exec c
  follows c := (m ()).follows c

def fail (fault : Diagnostic) : Parse α where
  run _ s := .error fault s
  exec c := .error fault c
  follows _ := .error rfl rfl

def token : Parse Token where
  run _ s := .ok s.head s
  exec c := .ok c.token c
  follows c := by rw [c.head_stream]; exact .ok rfl rfl

def peek : Parse Lexeme where
  run _ s := .ok s.head.lexeme s
  exec c := .ok c.token.lexeme c
  follows c := by rw [c.head_stream]; exact .ok rfl rfl

def peekSecond : Parse Lexeme where
  run _ s := .ok s.second.lexeme s
  exec c := .ok c.next.lexeme c
  follows c := by rw [c.second_stream]; exact .ok rfl rfl

def advance : Parse Unit where
  run _ s := .ok () s.tail
  exec c := .ok () c.advance
  follows c := .ok c.depth_advance c.stream_advance

/-- Pass over the token in front and go back to it. At the end there is nothing to go back from. -/
def revisit : Parse Unit where
  run _ s := .ok () s
  exec c := .ok () (if c.atEnd then c else c.advance.back)
  follows c := by
    split
    next => exact .ok rfl rfl
    next h => rw [Cursor.back_advance h]; exact .ok rfl rfl

def depth : Parse Nat where
  run d s := .ok d s
  exec c := .ok c.depth c
  follows _ := .ok rfl rfl

/-- Read one level deeper. The counter goes up before and down afterwards, however the reader
ends. -/
def nested (m : Parse α) : Parse α where
  run d s := m (d + 1) s
  exec c :=
    match m.exec c.enter with
    | .ok a c' => .ok a c'.leave
    | .error d c' => .error d c'.leave
  follows c := by
    have hm := m.follows c.enter
    revert hm
    change c.enter.Follows _ (m.run (c.depth + 1) c.stream) → _
    generalize m.exec c.enter = moved, m.run (c.depth + 1) c.stream = found
    rintro (⟨hdepth, rfl⟩ | ⟨hdepth, rfl⟩)
    · exact .ok (by simp [Cursor.leave, hdepth, Cursor.enter]) rfl
    · exact .error (by simp [Cursor.leave, hdepth, Cursor.enter]) rfl

def unexpected (expected : String) : Parse α := do
  let t ← token
  match t.lexeme with
  | .eof => fail (.endOfInput expected t.position)
  | found => fail (.unexpected expected found t.position)

def giveUp : Parse α := do fail (.misuse .unfinished (← token).position)

def atMark (m : Mark) : Parse Bool := do return (← peek).isMark m

def atKeyword (k : Keyword) : Parse Bool := do return (← peek).isKeyword k

def expectMark (m : Mark) : Parse Unit := do
  if ← atMark m then advance else unexpected m.spelling

def expectKeyword (k : Keyword) (expected : String) : Parse Unit := do
  if ← atKeyword k then advance else unexpected expected

def takeMark (m : Mark) : Parse Bool := do
  if ← atMark m then
    advance
    return true
  else return false

def expectName (expected : String) : Parse String := do
  match ← peek with
  | .name word =>
    advance
    return word
  | .keyword k =>
    advance
    return k.spelling
  | _ => unexpected expected

def expectVariable (expected : String) : Parse String := do
  if ← atMark .dollar then
    advance
    expectName expected
  else unexpected expected

def skipWhile (p : Lexeme → Bool) : Parse Unit where
  run _ s := .ok () (s.dropWhile p)
  exec c := .ok () (c.skipWhile p)
  follows c := .ok (c.depth_skipWhile p) (c.stream_skipWhile p)

def skipNewlines : Parse Unit := skipWhile Lexeme.isNewline

def isSeparator (l : Lexeme) : Bool := l.isNewline || l.isMark .semicolon

def skipSeparators : Parse Unit := skipWhile isSeparator

/-- One round of a loop either goes on or gives the result. -/
inductive Round (σ β : Type) where
  | more (state : σ)
  | done (result : β)

def rounds (round : σ → Parse (Round σ β)) : Nat → σ → Parse β
  | 0, _ => giveUp
  | n + 1, state => do
    match ← round state with
    | .done result => pure result
    | .more next => rounds round n next

/-- Run rounds to the end. Every round that goes on reads at least one token, so there are enough
rounds for every token and the end. -/
def loop (init : σ) (round : σ → Parse (Round σ β)) : Parse β where
  run d s := rounds round (s.length + 1) init d s
  exec c := (rounds round (c.stream.length + 1) init).exec c
  follows c := (rounds round (c.stream.length + 1) init).follows c

end Parse

end RouteScript
