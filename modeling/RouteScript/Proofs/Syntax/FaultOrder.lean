import RouteScript.Proofs.Syntax.Resumption
import RouteScript.Proofs.Token.Tiling

/-!
# The order of diagnostics

A turn that finds a fault has come at least as far as the token that shows it, and the next turn
starts behind a separator after that. So the places of the diagnostics are those of some of the
tokens, in the order of the tokens, and every diagnostic but the last uses up a separator.
-/

namespace RouteScript

namespace Stream

/-- The tokens of a stream with the end of the source behind them. -/
def closed (s : Stream) : List Token := s.tokens ++ [⟨.eof, s.stop⟩]

def separators (s : Stream) : Nat := s.tokens.countP (Parse.isSeparator ·.lexeme)

variable {s t rest after : Stream} {found : Reading}

/-! ## Rests -/

theorem IsRest.closed_sublist (h : rest.IsRest s) : rest.closed.Sublist s.closed := by
  obtain ⟨n, rfl⟩ := h
  exact (List.drop_sublist n s.tokens).append_right _

/-- Nothing that is read adds separators. -/
theorem IsRest.separators_le (h : rest.IsRest s) : rest.separators ≤ s.separators := by
  obtain ⟨n, rfl⟩ := h
  exact (List.drop_sublist n s.tokens).countP_le

theorem IsRest.tail (h : rest.IsRest s) : rest.tail.IsRest s.tail := by
  obtain ⟨n, rfl⟩ := h
  refine ⟨n, ?_⟩
  simp [tail_eq_drop, Nat.add_comm]

theorem head_mem_closed (s : Stream) : s.head ∈ s.closed := by
  obtain ⟨tokens, stop⟩ := s
  cases tokens <;> simp [head, closed]

/-- A stream that is not at its end has its next token and the tokens after it. -/
theorem closed_eq_cons (h : s.length ≠ 0) : s.closed = s.head :: s.tail.closed := by
  obtain ⟨tokens, stop⟩ := s
  cases tokens with
  | nil => exact absurd rfl h
  | cons t ts => rfl

/-- Going on after a fault passes over the token in front. -/
theorem isRest_resume_tail (s : Stream) : s.resume.IsRest s.tail :=
  (s.isRest_dropWhile (!Parse.isSeparator ·)).tail

/-- Where there are tokens left behind a fault, a separator stands before them. -/
theorem separators_resume (h : s.resume.length ≠ 0) : s.resume.separators < s.separators := by
  have hrest := s.isRest_dropWhile (!Parse.isSeparator ·)
  refine Nat.lt_of_lt_of_le ?_ hrest.separators_le
  cases hdrop : s.tokens.dropWhile (!Parse.isSeparator ·.lexeme) with
  | nil => simp [resume, dropWhile, tail, length, hdrop] at h
  | cons t ts =>
    have ht : Parse.isSeparator t.lexeme = true := by
      have hhead := List.head?_dropWhile_not (fun t : Token => !Parse.isSeparator t.lexeme) s.tokens
      simpa [hdrop] using hhead
    simp [separators, resume, dropWhile, tail, hdrop, ht]

/-! ## Turns -/

/-- What a turn finds: a statement, or a fault that is shown by a token up to which it has read. -/
theorem turn?_cases (h : s.turn? = some (found, rest)) :
    rest.IsRest s ∧ (found.diagnostics = [] ∨
      ∃ (fault : Diagnostic) (t after : Stream), found.diagnostics = [fault] ∧
        fault.place = t.head.position ∧ t.IsRest s ∧ after.IsRest t ∧ rest = after.resume) := by
  refine ⟨(of_turn?_eq_some h).1, ?_⟩
  have hskipped := s.isRest_skipped
  have hfits := s.skipped.fits_statement
  unfold turn? at h
  split at h
  next => cases h
  next =>
    cases hresult : s.skipped.statement with
    | ok stmt after =>
      rw [hresult] at h
      obtain ⟨rfl, rfl⟩ : ⟨[stmt], []⟩ = found ∧ after = rest := by simpa using h
      exact .inl rfl
    | error fault after =>
      rw [hresult] at h hfits
      obtain ⟨rfl, rfl⟩ : ⟨[], [fault]⟩ = found ∧ after.resume = rest := by simpa using h
      obtain ⟨-, t, ht, hafter, hplace⟩ := hfits
      exact .inr ⟨fault, t, after, rfl, hplace, ht.trans hskipped, hafter, rfl⟩

/-- Behind a fault the tokens that are left stand behind the one that shows it. -/
theorem cons_sublist_of_fault (ht : t.IsRest s) (hafter : after.IsRest t)
    (h : after.resume.length ≠ 0) : (t.head :: after.resume.closed).Sublist s.closed := by
  have hrest : after.resume.IsRest t.tail := after.isRest_resume_tail.trans hafter.tail
  have hne : t.length ≠ 0 := by
    have hle := (hrest.trans t.isRest_tail).length_le
    omega
  have hsublist := ht.closed_sublist
  rw [closed_eq_cons hne] at hsublist
  exact (hrest.closed_sublist.cons_cons _).trans hsublist

/-! ## All turns -/

/-- What holds where there is no turn, and before a turn if it holds behind it, holds of every
stream. -/
theorem turns_induction {motive : Stream → Prop} (last : ∀ s, s.turn? = none → motive s)
    (turn : ∀ s found rest, s.turn? = some (found, rest) → motive rest → motive s) (s : Stream) :
    motive s := by
  induction hn : s.length using Nat.strongRecOn generalizing s with
  | ind n ih =>
    cases hturn : s.turn? with
    | none => exact last s hturn
    | some next =>
      have hlength := (of_turn?_eq_some hturn).2.1
      exact turn s _ _ hturn (ih _ (hn ▸ hlength) next.2 rfl)

/-- At the end of the source there is nothing to report. -/
theorem diagnostics_of_length_eq_zero (h : s.length = 0) : s.read.diagnostics = [] := by
  rw [read_of_length_eq_zero h]
  rfl

/-- The diagnostics stand at some of the tokens, in their order. -/
theorem places_sublist (s : Stream) :
    (s.read.diagnostics.map Diagnostic.place).Sublist (s.closed.map Token.position) := by
  induction s using turns_induction with
  | last s hturn =>
    rw [s.read_eq, hturn]
    exact List.nil_sublist _
  | turn s found rest hturn hlater =>
    rw [s.read_eq, hturn]
    obtain ⟨hrest, hfound | ⟨fault, t, after, hfound, hplace, ht, hafter, rfl⟩⟩ := turn?_cases hturn
    · simp only [Reading.diagnostics_append, hfound, List.nil_append]
      exact hlater.trans (hrest.closed_sublist.map _)
    · simp only [Reading.diagnostics_append, hfound, List.singleton_append, List.map_cons, hplace]
      by_cases hend : after.resume.length = 0
      · have hmem := ht.closed_sublist.subset t.head_mem_closed
        simpa [diagnostics_of_length_eq_zero hend] using ⟨_, hmem, rfl⟩
      · exact (hlater.cons_cons _).trans ((cons_sublist_of_fault ht hafter hend).map _)

/-- Every diagnostic but the last one uses up a separator. -/
theorem length_diagnostics_le (s : Stream) : s.read.diagnostics.length ≤ s.separators + 1 := by
  induction s using turns_induction with
  | last s hturn =>
    rw [s.read_eq, hturn]
    exact Nat.zero_le _
  | turn s found rest hturn hlater =>
    rw [s.read_eq, hturn]
    obtain ⟨hrest, hfound | ⟨fault, t, after, hfound, -, ht, hafter, rfl⟩⟩ := turn?_cases hturn
    · have hle := hrest.separators_le
      simp only [Reading.diagnostics_append, hfound, List.nil_append]
      omega
    · simp only [Reading.diagnostics_append, hfound, List.singleton_append, List.length_cons]
      by_cases hend : after.resume.length = 0
      · simp [diagnostics_of_length_eq_zero hend]
      · have hlt := separators_resume hend
        have hle := (hafter.trans ht).separators_le
        omega

end Stream

/-! ## Source texts -/

/-- The tokens of a source end with the one that marks its end. -/
theorem Token.closed_ofTokens_tokenize (source : String) :
    (Stream.ofTokens (tokenize source)).closed = tokenize source := by
  have htile : Tile [] source.toList (tokenize source) := tile_tokensFrom _ _ [] rfl
  obtain ⟨init, htokens, hinit⟩ := htile.eq_append_eof
  have hbody : ∀ t ∈ init, t.lexeme.isEof = false := fun t ht =>
    Bool.eq_false_iff.mpr fun heof => hinit t ht (Lexeme.isEof_iff.mp heof)
  rw [htokens, Stream.ofTokens_append_eof hbody rfl]
  rfl

/-- The tokens of a source come in the order of their offsets. -/
theorem Token.pairwise_tokenize (source : String) :
    (tokenize source).Pairwise fun a b => a.position.offset < b.position.offset := by
  have htile : Tile [] source.toList (tokenize source) := tile_tokensFrom _ _ [] rfl
  refine List.isChain_iff_pairwise.mp (htile.adjoins.2.imp fun a b => ?_)
  rintro ⟨_, hstop, hle, _⟩
  exact Nat.lt_of_lt_of_le hstop hle

/-- The diagnostics of a source text stand at strictly increasing offsets, each of them at the place
of a token, and there is at most one more of them than there are line ends and semicolons. -/
theorem Reading.faults_in_order (source : String) :
    let tokens := Token.tokenize source
    let faults := (Reading.ofSource source).diagnostics
    faults.Pairwise (fun a b => a.place.offset < b.place.offset) ∧
    (∀ fault ∈ faults, ∃ t ∈ tokens, fault.place = t.position) ∧
    faults.length ≤ tokens.countP (Parse.isSeparator ·.lexeme) + 1 := by
  intro tokens faults
  have hfaults : faults = (Stream.ofTokens tokens).read.diagnostics :=
    congrArg diagnostics (ofSource_eq source)
  have hsublist := (Stream.ofTokens tokens).places_sublist
  rw [Token.closed_ofTokens_tokenize] at hsublist
  rw [hfaults]
  refine ⟨?_, ?_, ?_⟩
  · have hoffsets : (tokens.map Token.position).Pairwise fun p q => p.offset < q.offset :=
      List.pairwise_map.mpr (Token.pairwise_tokenize source)
    have hplaces := hoffsets.sublist hsublist
    rwa [List.pairwise_map] at hplaces
  · intro fault hfault
    obtain ⟨t, ht, hplace⟩ := List.mem_map.mp (hsublist.subset (List.mem_map_of_mem hfault))
    exact ⟨t, ht, hplace.symm⟩
  · have hcount : (Stream.ofTokens tokens).separators ≤
        tokens.countP (Parse.isSeparator ·.lexeme) := (List.takeWhile_sublist _).countP_le
    have hle := (Stream.ofTokens tokens).length_diagnostics_le
    exact Nat.le_trans hle (Nat.succ_le_succ hcount)

end RouteScript
