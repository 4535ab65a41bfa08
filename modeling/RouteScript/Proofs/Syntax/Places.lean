import RouteScript.Proofs.Syntax.Progress

/-!
# Places in a list of tokens

A stream that readers are given is what a list of tokens holds from some place on. `s.StandsAt
tokens k` says that `k` is that place. The list counts as closed: where its last token is no end of
the source, one is put behind it.
-/

namespace RouteScript

theorem Lexeme.isEof_iff {l : Lexeme} : l.isEof = true ↔ l = .eof := by
  cases l <;> simp [Lexeme.isEof]

theorem Token.length_closed_le (tokens : List Token) :
    (Token.closed tokens).length ≤ tokens.length + 1 := by
  unfold Token.closed
  split
  next => exact Nat.le_add_left ..
  next => split <;> simp

namespace Stream

/-- The stream is what the closed list of tokens holds from its place `k` on, and no end of the
source stands before that place. -/
structure StandsAt (tokens : List Token) (k : Nat) (s : Stream) : Prop where
  lt_length : k < (Token.closed tokens).length
  eq_ofTokens : s = ofTokens ((Token.closed tokens).drop k)
  no_eof : ∀ t ∈ (Token.closed tokens).take k, t.lexeme.isEof = false

/-! ## The end of the source -/

/-- A list of tokens splits at its first end. -/
theorem ofTokens_append_eof {body rest : List Token} {last : Token}
    (hbody : ∀ t ∈ body, t.lexeme.isEof = false) (hlast : last.lexeme.isEof = true) :
    ofTokens (body ++ last :: rest) = ⟨body, last.position⟩ := by
  have htake : (body ++ last :: rest).takeWhile (!·.lexeme.isEof) = body := by
    rw [List.takeWhile_append_of_pos (by simpa using hbody)]
    simp [hlast]
  have hfind : (body ++ last :: rest).find? (·.lexeme.isEof) = some last := by
    have hnone : body.find? (·.lexeme.isEof) = none := by simpa using hbody
    simp [List.find?_append, hnone, hlast]
  simp [ofTokens, htake, hfind]

/-- Closing a list of tokens adds at most a token at its end. -/
theorem exists_closed_eq (tokens : List Token) : ∃ more, Token.closed tokens = tokens ++ more := by
  unfold Token.closed
  split
  next hnone => exact ⟨_, by rw [List.getLast?_eq_none_iff.mp hnone]; rfl⟩
  next t _ =>
    split
    · exact ⟨[], (List.append_nil _).symm⟩
    · exact ⟨_, rfl⟩

/-- Tokens without an end are closed at the place of the last one. -/
theorem closed_of_no_eof {tokens : List Token} (h : ∀ t ∈ tokens, t.lexeme.isEof = false) :
    Token.closed tokens = tokens ++ [⟨.eof, (ofTokens tokens).stop⟩] := by
  have hfind : tokens.find? (·.lexeme.isEof) = none := by simpa using h
  cases hlast : tokens.getLast? with
  | none => simp_all [Token.closed, ofTokens]
  | some t =>
    have ht := h t (List.mem_of_getLast? hlast)
    simp [Token.closed, ofTokens, hlast, hfind, ht]

/-- The closed list goes on behind its first end; the stream of the tokens stops there. -/
theorem closed_split (tokens : List Token) : ∃ body last rest,
    Token.closed tokens = body ++ last :: rest ∧ (∀ t ∈ body, t.lexeme.isEof = false) ∧
      last.lexeme.isEof = true ∧ ofTokens tokens = ⟨body, last.position⟩ := by
  cases hfind : tokens.find? (·.lexeme.isEof) with
  | none =>
    have hbody : ∀ t ∈ tokens, t.lexeme.isEof = false := by simpa using hfind
    have htake : (tokens ++ []).takeWhile (!·.lexeme.isEof) = tokens ++ [] :=
      List.takeWhile_append_of_pos (by simpa using hbody)
    rw [List.append_nil] at htake
    refine ⟨tokens, _, [], closed_of_no_eof hbody, hbody, rfl, ?_⟩
    simp [ofTokens, htake]
  | some last =>
    obtain ⟨hlast, body, rest, rfl, hbody⟩ := List.find?_eq_some_iff_append.mp hfind
    have hbody : ∀ t ∈ body, t.lexeme.isEof = false := by simpa using hbody
    obtain ⟨more, hmore⟩ := exists_closed_eq (body ++ last :: rest)
    refine ⟨body, last, rest ++ more, by simp [hmore], hbody, hlast, ?_⟩
    exact ofTokens_append_eof hbody hlast

/-- Places are counted from the start of the tokens to their first end. -/
theorem standsAt_iff {tokens : List Token} {k : Nat} {s : Stream} :
    s.StandsAt tokens k ↔ k ≤ (ofTokens tokens).length ∧ s = (ofTokens tokens).drop k := by
  obtain ⟨body, last, rest, hclosed, hbody, hlast, hstream⟩ := closed_split tokens
  have hdrop (hk : k ≤ body.length) :
      ofTokens ((Token.closed tokens).drop k) = (ofTokens tokens).drop k := by
    rw [hclosed, hstream, List.drop_append_of_le_length hk]
    exact ofTokens_append_eof (fun t ht => hbody t (List.mem_of_mem_drop ht)) hlast
  have hlength : (ofTokens tokens).length = body.length := by rw [hstream]; rfl
  constructor
  · rintro ⟨hlt, heq, hno⟩
    have hk : k ≤ body.length := by
      refine Nat.le_of_not_lt fun hk => ?_
      have hmem : last ∈ (Token.closed tokens).take k := by
        rw [hclosed, List.mem_take_iff_getElem]
        exact ⟨body.length, by simp; omega, by simp⟩
      simp [hno last hmem] at hlast
    exact ⟨hlength ▸ hk, heq.trans (hdrop hk)⟩
  · rintro ⟨hk, rfl⟩
    rw [hlength] at hk
    refine ⟨by simp [hclosed]; omega, (hdrop hk).symm, fun t ht => ?_⟩
    rw [hclosed, List.take_append_of_le_length hk] at ht
    exact hbody t (List.mem_of_mem_take ht)

namespace StandsAt

variable {tokens : List Token} {k : Nat} {s : Stream}

/-- What is read and what is left make up the whole. -/
theorem length_add (h : s.StandsAt tokens k) : s.length + k = (ofTokens tokens).length := by
  obtain ⟨hk, rfl⟩ := standsAt_iff.mp h
  simp only [length, drop, List.length_drop] at hk ⊢
  omega

/-- The token in front is the one at the place where the stream stands. -/
theorem getElem?_closed (h : s.StandsAt tokens k) : (Token.closed tokens)[k]? = some s.head := by
  obtain ⟨body, last, rest, hclosed, hbody, hlast, hstream⟩ := closed_split tokens
  obtain ⟨hk, rfl⟩ := standsAt_iff.mp h
  have hk : k ≤ body.length := by simpa [hstream, length] using hk
  rw [hclosed, hstream]
  by_cases hend : k < body.length
  · rw [List.getElem?_append_left hend]
    simp [drop, head, hend, List.headD_eq_head?_getD, List.head?_drop]
  · obtain rfl : k = body.length := by omega
    have hlast : last.lexeme = .eof := Lexeme.isEof_iff.mp hlast
    simp [drop, head, ← hlast]

/-- Nothing is left just where an end is in front. -/
theorem length_eq_zero_iff (h : s.StandsAt tokens k) : s.length = 0 ↔ s.head.lexeme = .eof := by
  obtain ⟨body, last, rest, -, hbody, -, hstream⟩ := closed_split tokens
  obtain ⟨-, rfl⟩ := standsAt_iff.mp h
  rw [hstream]
  cases hdrop : body.drop k with
  | nil => simp [drop, length, head, hdrop]
  | cons t ts =>
    have ht := hbody t (List.mem_of_mem_drop (hdrop ▸ List.mem_cons_self))
    have hne : t.lexeme ≠ .eof := fun heof => by simp [heof, Lexeme.isEof] at ht
    simp [drop, length, head, hdrop, hne]

/-- Taking tokens off the front moves the place on by as many. -/
theorem exists_rest {rest : Stream} (h : s.StandsAt tokens k) (hrest : rest.IsRest s) :
    ∃ j, rest.StandsAt tokens j ∧ j + rest.length = k + s.length := by
  obtain ⟨hk, rfl⟩ := standsAt_iff.mp h
  obtain ⟨n, rfl⟩ := hrest
  have hplace : ((ofTokens tokens).drop (k + n)).StandsAt tokens
      (min (k + n) (ofTokens tokens).length) := by
    refine standsAt_iff.mpr ⟨Nat.min_le_right _ _, ?_⟩
    simp [drop, length, List.drop_eq_drop_iff]
  refine ⟨_, by rwa [drop_drop], ?_⟩
  have hrest := hplace.length_add
  have hs := h.length_add
  rw [drop_drop]
  omega

end StandsAt

theorem standsAt_zero (tokens : List Token) : (ofTokens tokens).StandsAt tokens 0 :=
  standsAt_iff.mpr ⟨Nat.zero_le _, rfl⟩

/-! ## Fresh streams -/

theorem ofTokens_closed (tokens : List Token) :
    ofTokens (Token.closed tokens) = ofTokens tokens := by
  obtain ⟨body, last, rest, hclosed, hbody, hlast, hstream⟩ := closed_split tokens
  rw [hclosed, hstream, ofTokens_append_eof hbody hlast]

/-- The tokens from a place on are closed as the whole list is. -/
theorem closed_drop {tokens : List Token} {k : Nat} (hk : k < tokens.length) :
    Token.closed (tokens.drop k) = (Token.closed tokens).drop k := by
  have hlast : (tokens.drop k).getLast? = tokens.getLast? := by
    rw [List.getLast?_drop, if_neg (by omega)]
  unfold Token.closed
  rw [hlast]
  split
  next hnone =>
    rw [List.getLast?_eq_none_iff.mp hnone] at hk
    exact absurd hk (Nat.not_lt_zero k)
  next t _ =>
    split
    · rfl
    · rw [List.drop_append_of_le_length (Nat.le_of_lt hk)]

end Stream

end RouteScript
