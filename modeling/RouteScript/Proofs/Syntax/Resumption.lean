import RouteScript.Proofs.Syntax.Recovery

/-!
# Going on from where a cursor stands

A cursor carries a counter from one statement to the next, and the tokens behind it could be looked
at again. Neither matters. However a statement ends, the counter is what it was before, so between
statements no expression is counted; and a cursor that counts none finds what is read from its
stream. So from every place between statements a program is read as if it started there.
-/

namespace RouteScript

namespace Cursor

variable {source : Source} {c c' : Cursor source}

/-! ## One statement -/

/-- Between statements the depth that a statement is read at is zero. -/
theorem follows_statement (h : c.depth = 0) : c.Follows c.statement c.stream.statement := by
  have hfollows := (Grammar.ofLength c.stream.length).statement.follows c
  rw [h] at hfollows
  exact hfollows

theorem depth_resume (c : Cursor source) : c.resume.depth = c.depth := by
  rw [resume, depth_advance, depth_skipWhile]

/-- Recovery on the cursor leaves what recovery on the stream leaves. -/
theorem stream_resume (c : Cursor source) : c.resume.stream = c.stream.resume := by
  rw [resume, stream_advance, stream_skipWhile, Stream.resume]

theorem atEnd_eq (c : Cursor source) : c.atEnd = c.stream.tokens.isEmpty := by
  cases h : c.atEnd with
  | true => rw [tokens_stream_of_atEnd h, List.isEmpty_nil]
  | false =>
    have htokens := tokens_stream_of_not_atEnd (Bool.not_eq_true _ ▸ h)
    simpa using htokens

/-! ## Turns -/

/-- The cursor behind what separates statements. -/
def skipped (c : Cursor source) : Cursor source := c.skipWhile Parse.isSeparator

/-- What one turn finds and where it leaves the cursor; there is none at the end. -/
def turn? (c : Cursor source) : Option (Reading × Cursor source) :=
  if c.skipped.atEnd then none
  else
    match c.skipped.statement with
    | .ok stmt c' => some (⟨[stmt], []⟩, c')
    | .error fault c' => some (⟨[], [fault]⟩, c'.resume)

/-- Some turns lead from `start` to `c`, with `found` in hand. -/
inductive Reaches (start : Cursor source) : Reading → Cursor source → Prop where
  | start : Reaches start .none start
  | turn {found more : Reading} {c c' : Cursor source} :
    Reaches start found c → c.turn? = some (more, c') → Reaches start (found ++ more) c'

theorem statements_succ (n : Nat) (c : Cursor source) :
    c.statements (n + 1) =
      match c.turn? with
      | none => .none
      | some (found, c') => found ++ c'.statements n := by
  rw [statements, turn?, skipped]
  dsimp only
  split
  next => rfl
  next =>
    generalize statement _ = result
    cases result <;> rfl

/-- A turn of a cursor that counts no expression finds what a turn of its stream finds, and counts
none afterwards. -/
theorem turn?_cases (h : c.depth = 0) :
    c.turn? = none ∧ c.stream.turn? = none ∨
      ∃ found c', c.turn? = some (found, c') ∧ c'.depth = 0 ∧
        c.stream.turn? = some (found, c'.stream) := by
  have hdepth : c.skipped.depth = 0 := (c.depth_skipWhile Parse.isSeparator).trans h
  have hskipped : c.skipped.stream = c.stream.skipped := c.stream_skipWhile Parse.isSeparator
  have hfollows := follows_statement hdepth
  rw [turn?, Stream.turn?, atEnd_eq, ← hskipped]
  by_cases hend : c.skipped.stream.tokens.isEmpty
  · exact .inl ⟨if_pos hend, if_pos hend⟩
  · rw [if_neg hend, if_neg hend]
    revert hfollows
    generalize c.skipped.statement = moved, c.skipped.stream.statement = read
    rintro (⟨hmoved, rfl⟩ | ⟨hmoved, rfl⟩)
    · exact .inr ⟨_, _, rfl, hmoved.trans hdepth, rfl⟩
    · refine .inr ⟨_, _, rfl, ?_, ?_⟩
      · rw [depth_resume, hmoved, hdepth]
      · rw [stream_resume]

/-- A program is read with a cursor as it is read from a stream. -/
theorem statements_eq {n : Nat} (h : c.depth = 0) : c.statements n = c.stream.statements n := by
  induction n generalizing c with
  | zero => rfl
  | succ n ih =>
    rw [statements_succ, Stream.statements_succ]
    obtain ⟨hturn, hstream⟩ | ⟨found, c', hturn, hdepth, hstream⟩ := turn?_cases h
    · rw [hturn, hstream]
    · rw [hturn, hstream]
      exact congrArg (found ++ ·) (ih hdepth)

/-- At depth zero, reading from the cursor is reading what is left of the source. -/
theorem read_eq (h : c.depth = 0) : c.read = c.stream.read := statements_eq h

/-- A run of turns with a cursor is one of its stream, and leaves the count at zero. -/
theorem Reaches.stream {start : Cursor source} {found : Reading} (h : start.Reaches found c)
    (hstart : start.depth = 0) : c.depth = 0 ∧ start.stream.Reaches found c.stream := by
  induction h with
  | start => exact ⟨hstart, .start⟩
  | turn _ hturn ih =>
    obtain ⟨hdepth, hreaches⟩ := ih
    obtain ⟨hnone, -⟩ | ⟨found, c', hsome, hdepth', hstream⟩ := turn?_cases hdepth
    · rw [hnone] at hturn
      cases hturn
    · obtain ⟨rfl, rfl⟩ : found = _ ∧ c' = _ := by simpa [hsome] using hturn
      exact ⟨hdepth', hreaches.turn hstream⟩

/-! ## Fresh starts -/

theorem stream_start (tokens : List Token) :
    (start (.ofTokens tokens)).stream = Stream.ofTokens tokens :=
  Stream.ofTokens_closed tokens

theorem read_start (tokens : List Token) :
    (start (.ofTokens tokens)).read = (Stream.ofTokens tokens).read := by
  rw [read_eq rfl, stream_start]

/-- What is read from a place on is what is read from its tokens alone. Behind the last token there
is the end that was put there, which could be at another place. -/
theorem read_stream {tokens : List Token} (c : Cursor (.ofTokens tokens)) :
    c.stream.read = (Stream.ofTokens (tokens.drop c.current)).read := by
  have hstream : c.stream = Stream.ofTokens ((Token.closed tokens).drop c.current) := rfl
  by_cases hlt : c.current < tokens.length
  · rw [hstream, ← Stream.closed_drop hlt, Stream.ofTokens_closed]
  · have hdrop : tokens.drop c.current = [] := List.drop_eq_nil_of_le (Nat.le_of_not_lt hlt)
    have hend : c.atEnd := Decidable.byContradiction fun hend => by
      have hnext : c.current + 1 < (Token.closed tokens).length := lt_size_of_not_atEnd hend
      have hsize := Token.length_closed_le tokens
      omega
    have hlength : c.stream.length = 0 := List.length_eq_zero_iff.mpr (tokens_stream_of_atEnd hend)
    rw [hdrop, Stream.read_of_length_eq_zero hlength, Stream.read_of_length_eq_zero rfl]

/-- Between statements, what has happened before leaves no trace on a cursor but its place. It
counts no expression, however deep the faults so far were; what is found from it on is what is found
afresh from the tokens that start there; and that comes behind what has been found. -/
theorem read_from_reached {tokens : List Token} {found : Reading} {c : Cursor (.ofTokens tokens)}
    (h : (start (.ofTokens tokens)).Reaches found c) :
    c.depth = 0 ∧ c.read = (start (.ofTokens (tokens.drop c.current))).read ∧
      (start (.ofTokens tokens)).read = found ++ c.read := by
  obtain ⟨hdepth, hreaches⟩ := h.stream rfl
  refine ⟨hdepth, ?_, ?_⟩
  · rw [read_eq hdepth, c.read_stream, read_start]
  · rw [read_eq rfl, read_eq hdepth, hreaches.read_eq]

/-- The fault is found inside a list in parentheses; behind the semicolon nothing is left of it. -/
theorem read_from_reached_behind_fault :
    let tokens : List Token :=
      [⟨.mark .leftParen, ⟨0, 1, 1⟩⟩, ⟨.mark .leftBracket, ⟨1, 1, 2⟩⟩,
        ⟨.mark .semicolon, ⟨2, 1, 3⟩⟩, ⟨.name "x", ⟨3, 1, 4⟩⟩]
    let found : Reading := ⟨[], [.noExpression (.mark .semicolon) ⟨2, 1, 3⟩]⟩
    let c : Cursor (.ofTokens tokens) := ⟨⟨3, by decide⟩, 0⟩
    (start (.ofTokens tokens)).Reaches found c ∧
      c.depth = 0 ∧ c.read = (start (.ofTokens (tokens.drop c.current))).read ∧
        (start (.ofTokens tokens)).read = found ++ c.read := by
  intro tokens found c
  have hturn : (start (.ofTokens tokens)).turn? = some (found, c) := rfl
  have hreaches : (start (.ofTokens tokens)).Reaches found c := Reaches.start.turn hturn
  exact ⟨hreaches, read_from_reached hreaches⟩

end Cursor

/-- A source is read as the stream of its tokens. -/
theorem Reading.ofSource_eq (source : String) :
    Reading.ofSource source = (Stream.ofTokens (Token.tokenize source)).read :=
  Cursor.read_start _

end RouteScript
