import RouteScript.Proofs.Syntax.Places
import RouteScript.Proofs.Syntax.GrammarProgress

/-!
# Reading to the end

Statements are read in turns. A turn takes a statement, or finds a fault and passes over the rest of
the line; both take tokens, so reading comes to the end of every list of tokens.
-/

namespace RouteScript

namespace Reading

instance : Append Reading where
  append r r' := ⟨r.statements ++ r'.statements, r.diagnostics ++ r'.diagnostics⟩

def none : Reading := ⟨[], []⟩

theorem diagnostics_append (r r' : Reading) :
    (r ++ r').diagnostics = r.diagnostics ++ r'.diagnostics := rfl

theorem append_none (r : Reading) : r ++ none = r := by
  change Reading.mk _ _ = r
  simp [none]

theorem append_assoc (r r' r'' : Reading) : r ++ r' ++ r'' = r ++ (r' ++ r'') := by
  change Reading.mk (r.statements ++ r'.statements ++ r''.statements)
    (r.diagnostics ++ r'.diagnostics ++ r''.diagnostics) = _
  rw [List.append_assoc, List.append_assoc]
  rfl

end Reading

namespace Stream

/-- The stream without what separates statements at its front. -/
def skipped (s : Stream) : Stream := s.dropWhile Parse.isSeparator

/-- What one turn finds and where the next one starts; there is none at the end. -/
def turn? (s : Stream) : Option (Reading × Stream) :=
  if s.skipped.tokens.isEmpty then none
  else
    match s.skipped.statement with
    | .ok stmt rest => some (⟨[stmt], []⟩, rest)
    | .error fault rest => some (⟨[], [fault]⟩, rest.resume)

/-- Some turns from `start` on lead to `s`, with `found` in hand. -/
inductive Reaches (start : Stream) : Reading → Stream → Prop where
  | start : Reaches start .none start
  | turn {found more : Reading} {s rest : Stream} :
    Reaches start found s → s.turn? = some (more, rest) → Reaches start (found ++ more) rest

theorem statements_succ (n : Nat) (s : Stream) :
    s.statements (n + 1) =
      match s.turn? with
      | none => .none
      | some (found, rest) => found ++ rest.statements n := by
  rw [statements, turn?, skipped]
  dsimp only
  split
  next => rfl
  next =>
    generalize statement _ = result
    cases result <;> rfl

/-- There is no further turn once only separators are left. -/
theorem turn?_eq_none_iff {s : Stream} : s.turn? = none ↔ s.skipped.length = 0 := by
  unfold turn?
  split
  next hempty => simpa [length] using hempty
  next hsome => cases s.skipped.statement <;> simpa [length] using hsome

theorem isRest_skipped (s : Stream) : s.skipped.IsRest s := s.isRest_dropWhile _

/-- Recovery goes forward only. -/
theorem isRest_resume (s : Stream) : s.resume.IsRest s :=
  (isRest_tail _).trans (s.isRest_dropWhile _)

/-- Going on after a fault takes a token, except at the end. -/
theorem length_resume_le (s : Stream) : s.resume.length ≤ s.length - 1 := by
  have hle := (s.isRest_dropWhile (!Parse.isSeparator ·)).length_le
  simp only [length, resume, tail, List.length_tail] at hle ⊢
  omega

theorem fits_statement (s : Stream) : s.statement.Fits s fun _ => 1 :=
  (Grammar.progresses_within (s.length + 1)).takes_statement 0 s (Nat.lt_succ_self _)

/-- A turn takes at least one token, and no reading is given up in it. -/
theorem of_turn?_eq_some {s rest : Stream} {found : Reading} (h : s.turn? = some (found, rest)) :
    rest.IsRest s ∧ rest.length < s.length ∧
      ∀ fault ∈ found.diagnostics, fault.isUnfinished = false := by
  have hskipped := s.isRest_skipped
  have hfits := s.skipped.fits_statement
  unfold turn? at h
  split at h
  next => cases h
  next hsome =>
    cases hresult : s.skipped.statement with
    | ok stmt after =>
      rw [hresult] at h hfits
      obtain ⟨rfl, rfl⟩ : ⟨[stmt], []⟩ = found ∧ after = rest := by simpa using h
      obtain ⟨hrest, hlength⟩ := hfits
      have hlength : after.length + 1 ≤ s.skipped.length := hlength
      have := hskipped.length_le
      exact ⟨hrest.trans hskipped, by omega, by simp⟩
    | error fault after =>
      rw [hresult] at h hfits
      obtain ⟨rfl, rfl⟩ : ⟨[], [fault]⟩ = found ∧ after.resume = rest := by simpa using h
      obtain ⟨hfault, t, ht, hafter, -⟩ := hfits
      have hrest := hafter.trans ht
      refine ⟨(after.isRest_resume.trans hrest).trans hskipped, ?_, by simpa using hfault⟩
      have hpos : 0 < s.skipped.length := List.length_pos_iff.mpr (by simpa using hsome)
      have hle := hrest.length_le
      have hresume := after.length_resume_le
      have := hskipped.length_le
      omega

/-- Turns for every token and one more are enough, and further ones change nothing. -/
theorem statements_congr {n n' : Nat} {s : Stream} (h : s.length < n) (h' : s.length < n') :
    s.statements n = s.statements n' := by
  induction n generalizing n' s with
  | zero => omega
  | succ n ih =>
    obtain ⟨n', rfl⟩ := Nat.exists_eq_succ_of_ne_zero (Nat.ne_of_gt (Nat.zero_lt_of_lt h'))
    rw [statements_succ, statements_succ]
    cases hturn : s.turn? with
    | none => rfl
    | some next =>
      have hlength := (of_turn?_eq_some hturn).2.1
      exact congrArg (next.1 ++ ·) (ih (by omega) (by omega))

/-- A reading is its first turn and the reading of what is left. -/
theorem read_eq (s : Stream) :
    s.read =
      match s.turn? with
      | none => .none
      | some (found, rest) => found ++ rest.read := by
  rw [read, statements_succ]
  cases hturn : s.turn? with
  | none => rfl
  | some next =>
    have hlength := (of_turn?_eq_some hturn).2.1
    simp only
    rw [read, statements_congr hlength (Nat.lt_succ_self _)]

namespace Reaches

variable {start s : Stream} {found : Reading}

/-- What is read is what has been found and what is read from there on. -/
theorem read_eq (h : start.Reaches found s) : start.read = found ++ s.read := by
  induction h with
  | start => rfl
  | turn _ hturn ih => rw [ih, Stream.read_eq, hturn, Reading.append_assoc]

theorem isRest (h : start.Reaches found s) : s.IsRest start := by
  induction h with
  | start => exact .refl start
  | turn _ hturn ih => exact (of_turn?_eq_some hturn).1.trans ih

/-- Every stream that is reached stands at a place among the tokens. -/
theorem exists_standsAt {tokens : List Token} (h : (ofTokens tokens).Reaches found s) :
    ∃ k, s.StandsAt tokens k := by
  obtain ⟨k, hk, -⟩ := (standsAt_zero tokens).exists_rest h.isRest
  exact ⟨k, hk⟩

/-- No statement is given up for want of steps. -/
theorem finished (h : start.Reaches found s) :
    ∀ fault ∈ found.diagnostics, fault.isUnfinished = false := by
  induction h with
  | start => simp [Reading.none]
  | turn _ hturn ih =>
    have hmore := (of_turn?_eq_some hturn).2.2
    simp only [Reading.diagnostics_append, List.mem_append]
    rintro fault (hfault | hfault)
    · exact ih fault hfault
    · exact hmore fault hfault

/-- Reading comes to a place where there is no further turn. -/
theorem exists_last (h : start.Reaches found s) :
    ∃ last, start.Reaches start.read last ∧ last.turn? = none := by
  induction hn : s.length using Nat.strongRecOn generalizing s found with
  | ind n ih =>
    cases hturn : s.turn? with
    | none =>
      have hread : start.read = found := by rw [h.read_eq, s.read_eq, hturn, Reading.append_none]
      exact ⟨s, hread ▸ h, hturn⟩
    | some next =>
      have hlength := (of_turn?_eq_some hturn).2.1
      exact ih _ (hn ▸ hlength) (h.turn hturn) rfl

end Reaches

/-- Where no token is left, nothing is read, wherever the source is said to end. -/
theorem read_of_length_eq_zero {s : Stream} (h : s.length = 0) : s.read = .none := by
  have hle := s.isRest_skipped.length_le
  have hturn : s.turn? = none := turn?_eq_none_iff.mpr (by omega)
  rw [s.read_eq, hturn]

end Stream

/-! ## Places of readers -/

/-- A reader that starts at place `k` ends at a later place, or fails at one that is not before. -/
def Parsed.MovesOn {α : Type} (tokens : List Token) (k : Nat) : Parsed α → Prop
  | .ok _ rest => ∃ j, k < j ∧ rest.StandsAt tokens j
  | .error fault rest => fault.isUnfinished = false ∧ ∃ j, k ≤ j ∧ rest.StandsAt tokens j

theorem Parsed.Fits.movesOn {α : Type} {tokens : List Token} {k : Nat} {s : Stream} {p : Parsed α}
    (h : p.Fits s fun _ => 1) (hs : s.StandsAt tokens k) : p.MovesOn tokens k := by
  cases p with
  | ok a rest =>
    obtain ⟨hrest, hlength⟩ := h
    obtain ⟨j, hj, hsum⟩ := hs.exists_rest hrest
    have hlength : rest.length + 1 ≤ s.length := hlength
    exact ⟨j, by omega, hj⟩
  | error fault rest =>
    obtain ⟨hfault, t, ht, hrest, -⟩ := h
    obtain ⟨j, hj, hsum⟩ := hs.exists_rest (hrest.trans ht)
    have hlength := (hrest.trans ht).length_le
    exact ⟨hfault, j, by omega, hj⟩

namespace Stream

/-- How readers move over the tokens from place `k` on, where `s` stands. The depth `d` of
expressions around it is any. -/
structure Moves (tokens : List Token) (k : Nat) (s : Stream) : Prop where
  /-- Taking a token moves on by one place, and by none at the end. -/
  tail : ∃ j, s.tail.StandsAt tokens j ∧ (j = k + 1 ∨ j = k ∧ s.head.lexeme = .eof)
  expression (n d : Nat) (level : Level) : s.length < n →
    ((Grammar.within n).expression level d s).MovesOn tokens k
  body (n d : Nat) : s.length < n → ((Grammar.within n).body d s).MovesOn tokens k
  statement (n d : Nat) : s.length < n → ((Grammar.within n).statement d s).MovesOn tokens k
  /-- The arguments of a call are read from one place before the one behind the parenthesis, which
  is always there. -/
  call (g : Grammar) (left : Expr) (d : Nat) : s.head.lexeme = .mark .leftParen →
    ∃ j u, s.tail.StandsAt tokens j ∧ 0 < j ∧ u.StandsAt tokens (j - 1) ∧
      g.extend left d s = (Expr.call left <$> g.arguments) d u
  /-- Line ends before a keyword that is missing are not taken. -/
  lineBreak (key : Keyword) (d : Nat) : ∃ found rest j,
    Grammar.lineBreakThen key d s = .ok found rest ∧ rest.StandsAt tokens j ∧
      if found then k < j else j = k
  /-- Going on after a fault takes a token, except at the end. -/
  resume : ∃ j, s.resume.StandsAt tokens j ∧ (k < j ∨ j = k ∧ s.head.lexeme = .eof)

/-- From a place among the tokens a reader moves to places further on. -/
theorem StandsAt.moves {tokens : List Token} {k : Nat} {s : Stream} (h : s.StandsAt tokens k) :
    s.Moves tokens k where
  tail := by
    obtain ⟨j, hj, hsum⟩ := h.exists_rest s.isRest_tail
    refine ⟨j, hj, ?_⟩
    by_cases heof : s.head.lexeme = .eof
    · have hzero := h.length_eq_zero_iff.mpr heof
      have hle := s.isRest_tail.length_le
      exact .inr ⟨by omega, heof⟩
    · have hlength := s.length_tail heof
      exact .inl (by omega)
  expression n d level hn := ((Grammar.progresses_within n).expression level d s hn).movesOn h
  body n d hn := ((Grammar.progresses_within n).body d s hn).movesOn h
  statement n d hn := ((Grammar.progresses_within n).takes_statement d s hn).movesOn h
  call g left d hparen := by
    obtain ⟨j, hj, hsum⟩ := h.exists_rest s.isRest_tail
    have hlength := s.length_tail (by simp [hparen])
    obtain rfl : j = k + 1 := by omega
    refine ⟨k + 1, s, hj, Nat.succ_pos k, h, ?_⟩
    simp only [Grammar.extend, Parse.bind_apply, Parse.token, hparen, map_eq_pure_bind]
    rfl
  lineBreak key d := by
    have hbreak := s.isRest_dropWhile Lexeme.isNewline
    rw [Grammar.lineBreakThen_apply]
    split
    next hkey =>
      have hne : (s.dropWhile Lexeme.isNewline).head.lexeme ≠ .eof :=
        fun heof => by simp [heof, Lexeme.isKeyword] at hkey
      have hlength := length_tail hne
      have hle := hbreak.length_le
      obtain ⟨j, hj, hsum⟩ := h.exists_rest ((isRest_tail _).trans hbreak)
      exact ⟨true, _, j, rfl, hj, by simp only [if_true]; omega⟩
    next => exact ⟨false, s, k, rfl, h, by simp⟩
  resume := by
    obtain ⟨j, hj, hsum⟩ := h.exists_rest s.isRest_resume
    have hle := s.length_resume_le
    refine ⟨j, hj, ?_⟩
    by_cases heof : s.head.lexeme = .eof
    · have hzero := h.length_eq_zero_iff.mpr heof
      exact .inr ⟨by omega, heof⟩
    · have hpos : s.length ≠ 0 := fun hzero => heof (h.length_eq_zero_iff.mp hzero)
      exact .inl (by omega)

/-- Whatever the tokens are, reading is never given up and comes to an end of the source, all its
turns start at a token, and from every token readers move on within the tokens. -/
theorem read_comes_to_end (tokens : List Token) :
    (∀ fault ∈ (ofTokens tokens).read.diagnostics, fault.isUnfinished = false) ∧
    (∃ last k t, (ofTokens tokens).Reaches (ofTokens tokens).read last ∧ last.turn? = none ∧
      last.skipped.StandsAt tokens k ∧ (Token.closed tokens)[k]? = some t ∧ t.lexeme = .eof) ∧
    (∀ found s, (ofTokens tokens).Reaches found s → ∃ k, s.StandsAt tokens k) ∧
    ∀ (k : Nat) (s : Stream), s.StandsAt tokens k → s.Moves tokens k := by
  have hstart : (ofTokens tokens).Reaches .none (ofTokens tokens) := .start
  obtain ⟨last, hlast, hturn⟩ := hstart.exists_last
  obtain ⟨_, hplace⟩ := hlast.exists_standsAt
  obtain ⟨k, hk, -⟩ := hplace.exists_rest last.isRest_skipped
  have heof := hk.length_eq_zero_iff.mp (turn?_eq_none_iff.mp hturn)
  exact ⟨hlast.finished, ⟨last, k, _, hlast, hturn, hk, hk.getElem?_closed, heof⟩,
    fun _ _ h => h.exists_standsAt, fun _ _ h => h.moves⟩

/-- A call whose parentheses are not closed: its arguments are read from the parenthesis on. -/
theorem read_comes_to_end_open_call :
    let tokens : List Token := [⟨.name "f", ⟨0, 1, 1⟩⟩, ⟨.mark .leftParen, ⟨1, 1, 2⟩⟩]
    let s : Stream := ⟨[⟨.mark .leftParen, ⟨1, 1, 2⟩⟩], ⟨1, 1, 2⟩⟩
    s.StandsAt tokens 1 ∧ s.Moves tokens 1 := by
  intro tokens s
  have hplace : s.StandsAt tokens 1 := standsAt_iff.mpr ⟨by decide, rfl⟩
  exact ⟨hplace, (read_comes_to_end tokens).2.2.2 1 s hplace⟩

end Stream

end RouteScript
