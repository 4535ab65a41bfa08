import RouteScript.Syntax.Diagnostic

/-!
# Streams and cursors

A parser goes over its tokens with a cursor: it stands in front of one of them and counts the
expressions around its place. What is still to be read from there is a stream. A cursor could be put
back, and a stream cannot; so what is said of streams does not depend on the tokens behind.
-/

namespace RouteScript

/-- The tokens still to be read. The end of the source stands behind them at `stop`. -/
structure Stream where
  tokens : List Token
  stop : Position

namespace Stream

/-- The tokens up to the end of the source. A list without an end is closed at the place of its
last token. -/
def ofTokens (tokens : List Token) : Stream :=
  let body := tokens.takeWhile (!·.lexeme.isEof)
  let stop :=
    match tokens.find? (·.lexeme.isEof) with
    | some t => t.position
    | none => (tokens.getLast?.map Token.position).getD ⟨0, 0, 0⟩
  ⟨body, stop⟩

def head (s : Stream) : Token := s.tokens.headD ⟨.eof, s.stop⟩

def second (s : Stream) : Token := s.tokens.tail.headD ⟨.eof, s.stop⟩

/-- The stream without the token in front; the end of the source stays. -/
def tail (s : Stream) : Stream := { s with tokens := s.tokens.tail }

def length (s : Stream) : Nat := s.tokens.length

def dropWhile (p : Lexeme → Bool) (s : Stream) : Stream :=
  { s with tokens := s.tokens.dropWhile (p ·.lexeme) }

section

variable {s : Stream} {p : Lexeme → Bool}

theorem tail_of_tokens_eq_nil (h : s.tokens = []) : s.tail = s := by
  obtain ⟨_, stop⟩ := s
  subst h
  rfl

theorem dropWhile_of_neg (h : s.tokens ≠ [] → ¬ p s.head.lexeme) : s.dropWhile p = s := by
  obtain ⟨_ | ⟨t, rest⟩, stop⟩ := s
  · rfl
  · have hp : ¬ p t.lexeme := h (by simp)
    simp [dropWhile, hp]

theorem dropWhile_of_pos (h : s.tokens ≠ []) (hp : p s.head.lexeme) :
    s.dropWhile p = s.tail.dropWhile p := by
  obtain ⟨_ | ⟨t, rest⟩, stop⟩ := s
  · contradiction
  · have hp : p t.lexeme := hp
    simp [dropWhile, tail, hp]

end

theorem head_ofTokens (t : Token) (rest : List Token) : (ofTokens (t :: rest)).head = t := by
  obtain ⟨lexeme, position⟩ := t
  cases lexeme <;> rfl

theorem tokens_ofTokens_of_isEof {t : Token} (ht : t.lexeme.isEof) (rest : List Token) :
    (ofTokens (t :: rest)).tokens = [] := by
  simp [ofTokens, ht]

theorem tail_ofTokens {t : Token} (ht : ¬ t.lexeme.isEof) {rest : List Token} (hrest : rest ≠ []) :
    (ofTokens (t :: rest)).tail = ofTokens rest := by
  have hlast : (t :: rest).getLast? = rest.getLast? := by
    cases rest with
    | nil => contradiction
    | cons _ _ => rfl
  simp [ofTokens, tail, ht, hlast]

end Stream

/-! ## Token lists with an end -/

/-- The tokens with an end of the source behind them, unless they have one. -/
def Token.closed (tokens : List Token) : List Token :=
  match tokens.getLast? with
  | none => [⟨.eof, ⟨0, 0, 0⟩⟩]
  | some t => if t.lexeme.isEof then tokens else tokens ++ [⟨.eof, t.position⟩]

structure Source where
  tokens : Array Token
  closed : tokens.back?.any (·.lexeme.isEof)

def Source.ofTokens (tokens : List Token) : Source where
  tokens := ⟨Token.closed tokens⟩
  closed := by
    unfold Token.closed
    cases hlast : tokens.getLast? with
    | none => rfl
    | some t =>
      dsimp only
      split
      · simpa [Array.back?, ← List.getLast?_eq_getElem?, hlast]
      · simp [Array.back?]
        rfl

theorem Source.size_pos (source : Source) : 0 < source.tokens.size := by
  refine Nat.pos_of_ne_zero fun hsize => ?_
  have hclosed := source.closed
  simp [Array.eq_empty_of_size_eq_zero hsize] at hclosed

/-! ## Cursors -/

/-- A place in front of a token, and the number of expressions that are being read there. -/
structure Cursor (source : Source) where
  current : Fin source.tokens.size
  depth : Nat

namespace Cursor

variable {source : Source}

def start (source : Source) : Cursor source := ⟨⟨0, source.size_pos⟩, 0⟩

def token (c : Cursor source) : Token := source.tokens[c.current]

def atEnd (c : Cursor source) : Bool := c.token.lexeme.isEof

theorem lt_size_of_not_atEnd {c : Cursor source} (h : ¬ c.atEnd) :
    c.current + 1 < source.tokens.size := by
  have hclosed := source.closed
  have hlt := c.current.isLt
  refine Nat.lt_of_le_of_ne hlt fun heq => h ?_
  have hlast : source.tokens.back? = some c.token := by
    rw [Array.back?_eq_getElem?, ← heq, Nat.add_sub_cancel]
    exact Array.getElem?_eq_getElem hlt
  simpa [hlast, atEnd] using hclosed

/-- Pass over the token in front; a cursor in front of an end stays there. -/
def advance (c : Cursor source) : Cursor source :=
  if h : c.atEnd then c else { c with current := ⟨c.current + 1, lt_size_of_not_atEnd h⟩ }

/-- The token behind the one in front; behind an end that is the end itself. -/
def next (c : Cursor source) : Token := c.advance.token

def back (c : Cursor source) : Cursor source :=
  { c with current := ⟨c.current - 1, Nat.lt_of_le_of_lt (Nat.sub_le ..) c.current.isLt⟩ }

/-- Pass over tokens while they satisfy `p`, at most `n` of them. -/
def skip (p : Lexeme → Bool) : Nat → Cursor source → Cursor source
  | 0, c => c
  | n + 1, c => if !c.atEnd && p c.token.lexeme then c.advance.skip p n else c

def skipWhile (p : Lexeme → Bool) (c : Cursor source) : Cursor source :=
  c.skip p source.tokens.size

def enter (c : Cursor source) : Cursor source := { c with depth := c.depth + 1 }

def leave (c : Cursor source) : Cursor source := { c with depth := c.depth - 1 }

def stream (c : Cursor source) : Stream := .ofTokens (source.tokens.toList.drop c.current)

/-! ## Cursors as streams -/

variable {c : Cursor source}

theorem drop_current (c : Cursor source) : source.tokens.toList.drop c.current =
    c.token :: source.tokens.toList.drop (c.current + 1) := by
  rw [List.drop_eq_getElem_cons (by simp)]
  rfl

theorem head_stream (c : Cursor source) : c.stream.head = c.token := by
  rw [stream, drop_current, Stream.head_ofTokens]

theorem tokens_stream_of_atEnd (h : c.atEnd) : c.stream.tokens = [] := by
  rw [stream, drop_current, Stream.tokens_ofTokens_of_isEof h]

theorem tokens_stream_of_not_atEnd (h : ¬ c.atEnd) : c.stream.tokens ≠ [] := by
  have htoken : ¬ c.token.lexeme.isEof := h
  simp [stream, drop_current, Stream.ofTokens, htoken]

theorem stream_advance (c : Cursor source) : c.advance.stream = c.stream.tail := by
  unfold advance
  split
  next h => rw [Stream.tail_of_tokens_eq_nil (tokens_stream_of_atEnd h)]
  next h =>
    have hlt := lt_size_of_not_atEnd h
    have hrest : source.tokens.toList.drop (c.current + 1) ≠ [] := by simpa using hlt
    calc
      _ = Stream.ofTokens (source.tokens.toList.drop (c.current + 1)) := rfl
      _ = (Stream.ofTokens (c.token :: source.tokens.toList.drop (c.current + 1))).tail :=
        (Stream.tail_ofTokens h hrest).symm
      _ = c.stream.tail := by rw [stream, drop_current]

theorem second_stream (c : Cursor source) : c.stream.second = c.next := by
  rw [next, ← head_stream, stream_advance]
  rfl

theorem stream_skip (p : Lexeme → Bool) {n : Nat} {c : Cursor source}
    (h : source.tokens.size ≤ c.current + n) : (c.skip p n).stream = c.stream.dropWhile p := by
  induction n generalizing c with
  | zero => exact absurd c.current.isLt (Nat.not_lt.mpr h)
  | succ n ih =>
    unfold skip
    split
    next h' =>
      obtain ⟨hend, hp⟩ : ¬ c.atEnd ∧ p c.token.lexeme := by simpa using h'
      have hnext : source.tokens.size ≤ c.advance.current + n := by
        rw [advance, dif_neg hend]
        dsimp only
        omega
      rw [ih hnext, stream_advance, Stream.dropWhile_of_pos (tokens_stream_of_not_atEnd hend)]
      rwa [head_stream]
    next h' =>
      refine (Stream.dropWhile_of_neg fun htokens => ?_).symm
      have hend : ¬ c.atEnd := fun hend => htokens (tokens_stream_of_atEnd hend)
      simpa [hend, head_stream] using h'

theorem stream_skipWhile (p : Lexeme → Bool) (c : Cursor source) :
    (c.skipWhile p).stream = c.stream.dropWhile p :=
  stream_skip p (Nat.le_add_left _ _)

theorem back_advance (h : ¬ c.atEnd) : c.advance.back = c := by
  simp [advance, h, back]

@[simp] theorem depth_advance (c : Cursor source) : c.advance.depth = c.depth := by
  unfold advance
  split <;> rfl

@[simp] theorem depth_skip (p : Lexeme → Bool) (n : Nat) (c : Cursor source) :
    (c.skip p n).depth = c.depth := by
  induction n generalizing c with
  | zero => rfl
  | succ n ih =>
    unfold skip
    split
    · rw [ih, depth_advance]
    · rfl

@[simp] theorem depth_skipWhile (p : Lexeme → Bool) (c : Cursor source) :
    (c.skipWhile p).depth = c.depth :=
  depth_skip p _ c

end Cursor

end RouteScript
