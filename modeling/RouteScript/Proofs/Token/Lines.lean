import RouteScript.Proofs.Token.Tiling

/-!
# Source texts line by line

Comments end with their line and no token but a quoted text goes beyond it. So the tokens of two
source texts, one on the lines below the other, are those of the upper text, a newline, and those of
the lower text at later places. This is so exactly when the upper text does not end inside quotes.
-/

namespace RouteScript

open Text

/-! ## Later places -/

/-- The same place when lines and characters are put before the source. -/
def Position.later (lines chars : Nat) (p : Position) : Position :=
  ⟨p.line + lines, p.column, p.offset + chars⟩

/-- The same token when lines and characters are put before the source. -/
def Token.later (lines chars : Nat) (t : Token) : Token := ⟨t.lexeme, t.position.later lines chars⟩

/-- A position further down is reached from further down. -/
theorem Position.after_later (lines chars : Nat) (p : Position) (l : List Char) :
    (p.later lines chars).after l = (p.after l).later lines chars := by
  induction l generalizing p with
  | nil => rfl
  | cons c l ih =>
    have hadvance : (p.later lines chars).advance c = (p.advance c).later lines chars := by
      unfold advance later
      split <;> simp [Nat.add_right_comm]
    simpa [after, hadvance] using ih (p.advance c)

namespace Token

theorem scan_eq {c : Char} {rest : List Char}
    (hgap : isGapBlank c = false ∧ startsComment c rest = false) :
    scan c rest = ((scan c rest).1, (scan c rest).2 - 1 + 1) :=
  Prod.ext rfl (Nat.sub_add_cancel (finds_scan hgap).length_bounds.1).symm

/-- Tokens do not depend on where in the source they stand, except for their positions. -/
theorem tokensFrom_later (lines chars : Nat) (p : Position) (l : List Char) :
    tokensFrom (p.later lines chars) l = (tokensFrom p l).map (later lines chars) := by
  fun_induction tokensFrom p l with
  | case1 p l front start h =>
    rw [tokensFrom_of_nil (Prod.ext rfl h), Position.after_later]
    rfl
  | case2 p l front start c rest h found more ih =>
    have hscan := scan_eq ((splitGap_spec l).2.2 c rest h)
    rw [tokensFrom_of_cons (Prod.ext rfl h) hscan, Position.after_later, Position.after_later, ih]
    rfl

/-! ## Open quotes -/

/-- What the characters of a source text belong to. -/
inductive Reading where
  | code
  | comment
  | text
  deriving DecidableEq

/-- What goes on behind some characters of a source text. Quotes in comments and the signs of a
comment in quotes have no meaning. -/
def Reading.behind : Reading → List Char → Reading
  | reading, [] => reading
  | .code, c :: rest =>
    behind (if c = '"' then .text else if startsComment c rest then .comment else .code) rest
  | .comment, c :: rest => behind (if c = '\n' then .code else .comment) rest
  | .text, c :: rest => behind (if c = '"' then .code else .text) rest

/-- Whether a source text ends inside quotes. -/
def endsInText (source : String) : Bool := Reading.code.behind source.toList == .text

theorem behind_code_cons {c : Char} {rest : List Char} (hquote : c ≠ '"')
    (hcomment : startsComment c rest = false) :
    Reading.code.behind (c :: rest) = Reading.code.behind rest := by
  rw [Reading.behind, if_neg hquote, hcomment]
  rfl

def isPlain (c : Char) : Bool := c != '"' && c != '#' && c != '/'

/-- Plain characters do not start a comment or a text. -/
theorem behind_code_append {l : List Char} (h : ∀ c ∈ l, isPlain c = true) (rest : List Char) :
    Reading.code.behind (l ++ rest) = Reading.code.behind rest := by
  induction l with
  | nil => rfl
  | cons c l ih =>
    have hc : (c ≠ '"' ∧ c ≠ '#') ∧ c ≠ '/' := by simpa [isPlain] using h c (by simp)
    rw [List.cons_append, behind_code_cons hc.1.1 (by simp [startsComment, hc])]
    exact ih fun d hd => h d (by simp [hd])

theorem behind_comment_append {l : List Char} (h : '\n' ∉ l) (rest : List Char) :
    Reading.comment.behind (l ++ rest) = Reading.comment.behind rest := by
  induction l with
  | nil => rfl
  | cons c l ih =>
    simp only [List.mem_cons, not_or] at h
    rw [List.cons_append, Reading.behind, if_neg (Ne.symm h.1)]
    exact ih h.2

theorem behind_text_append {l : List Char} (h : '"' ∉ l) (rest : List Char) :
    Reading.text.behind (l ++ rest) = Reading.text.behind rest := by
  induction l with
  | nil => rfl
  | cons c l ih =>
    simp only [List.mem_cons, not_or] at h
    rw [List.cons_append, Reading.behind, if_neg (Ne.symm h.1)]
    exact ih h.2

/-- At the end of its line a comment is over. -/
theorem behind_comment_iff {rest : List Char} (h : StopsAt (· != '\n') rest) :
    Reading.comment.behind rest = .text ↔ Reading.code.behind rest = .text := by
  cases rest with
  | nil => simp [Reading.behind]
  | cons c rest =>
    obtain rfl : c = '\n' := by simpa using h c rfl
    rw [behind_code_cons (by decide) rfl]
    rfl

/-- A gap ends in code again. -/
theorem behind_gap_iff {gap rest : List Char} (h : IsGap gap rest) :
    Reading.code.behind (gap ++ rest) = .text ↔ Reading.code.behind rest = .text := by
  obtain ⟨blanks, comment, rfl, hblanks, hcomment⟩ := h
  have hplain : ∀ c ∈ blanks, isPlain c = true := by
    intro c hc
    have hblank := hblanks c hc
    simp only [isGapBlank, Bool.or_eq_true, beq_iff_eq] at hblank
    obtain (rfl | rfl) | rfl := hblank <;> rfl
  rw [List.append_assoc, behind_code_append hplain]
  obtain rfl | ⟨hstarts, hline, hends⟩ := hcomment
  · rfl
  · rw [← behind_comment_iff hends]
    obtain ⟨body, rfl⟩ | ⟨body, rfl⟩ := hstarts
    · have hbody : '\n' ∉ body := fun hmem => hline (by simp [hmem])
      exact Eq.congr_left (behind_comment_append hbody rest)
    · have hbody : '\n' ∉ '/' :: body := fun hmem => hline (List.mem_cons_of_mem _ hmem)
      exact Eq.congr_left (behind_comment_append hbody rest)

theorem isPlain_of {p : Char → Bool} {c : Char} (h : p c = true) (hquote : p '"' = false)
    (hhash : p '#' = false) (hslash : p '/' = false) : isPlain c = true := by
  have hne (d : Char) (hd : p d = false) : c ≠ d := by
    rintro rfl
    simp [hd] at h
  simp [isPlain, hne _ hquote, hne _ hhash, hne _ hslash]

theorem isPlain_of_ofWord? {word : List Char} {k : Keyword}
    (h : Keyword.ofWord? (String.ofList word) = some k) : ∀ c ∈ word, isPlain c = true := by
  have htable : Keyword.table.all (fun entry => entry.1.toList.all isPlain) = true := by
    decide +kernel
  obtain ⟨l₁, l₂, htable', -⟩ := List.lookup_eq_some_iff.mp h
  have hmem : (String.ofList word, k) ∈ Keyword.table := by simp [htable']
  simpa using List.all_eq_true.mp htable _ hmem

theorem isPlain_of_isNameWord {word : List Char} (h : isNameWord (String.ofList word) = true) :
    ∀ c ∈ word, isPlain c = true := by
  cases word with
  | nil => simp
  | cons c word =>
    simp only [isNameWord, String.toList_ofList, Bool.and_eq_true, List.all_eq_true] at h
    intro d hd
    obtain rfl | hd := List.mem_cons.mp hd
    · exact isPlain_of h.1.1 rfl rfl rfl
    · exact isPlain_of (h.1.2 d hd) rfl rfl rfl

theorem isPlain_of_ofPair? {c d : Char} {m : Mark} (h : Mark.ofPair? c d = some m) :
    isPlain c = true ∧ isPlain d = true := by
  unfold Mark.ofPair? at h
  split at h
  case h_16 => simp at h
  all_goals exact ⟨rfl, rfl⟩

/-- A quote is open behind a text that goes on to the end of the source, and behind no other
token. -/
theorem behind_spelledBy {l : Lexeme} {spelling rest : List Char} (h : l.SpelledBy spelling rest) :
    Reading.code.behind (spelling ++ rest) = Reading.code.behind rest ∨
      ∃ body, '"' ∉ body ∧ spelling = '"' :: body ∧ rest = [] := by
  cases h with
  | newline => exact .inl (behind_code_append (by simp [isPlain]) rest)
  | @text body _ h =>
    left
    rw [List.append_assoc, List.cons_append, Reading.behind, if_pos rfl, behind_text_append h]
    rfl
  | @openText body h => exact .inr ⟨body, h, rfl, rfl⟩
  | keyword h => exact .inl (behind_code_append (isPlain_of_ofWord? h) rest)
  | name h => exact .inl (behind_code_append (isPlain_of_isNameWord h) rest)
  | integer _ h | tooLarge _ h =>
    exact .inl (behind_code_append (fun c hc => isPlain_of (h c hc) rfl rfl rfl) rest)
  | @float whole places _ _ _ h =>
    refine .inl (behind_code_append (fun c hc => ?_) rest)
    obtain hc | rfl | hc := by simpa using hc
    · exact isPlain_of (h c (by simp [hc])) rfl rfl rfl
    · rfl
    · exact isPlain_of (h c (by simp [hc])) rfl rfl rfl
  | pair h =>
    refine .inl (behind_code_append ?_ rest)
    simpa using isPlain_of_ofPair? h
  | mark h hgap => exact .inl (behind_code_cons (by rintro rfl; simp [Mark.ofChar?] at h) hgap)
  | stray _ hgap hother => exact .inl (behind_code_cons hother.2.1 hgap.2)

/-! ## Ends of lines -/

theorem takeWhile_append_of_not {p : Char → Bool} {d : Char} (hd : p d = false)
    (l b : List Char) : (l ++ d :: b).takeWhile p = l.takeWhile p ∧
      (l ++ d :: b).dropWhile p = l.dropWhile p ++ d :: b := by
  induction l with
  | nil => simp [hd]
  | cons c l ih => cases hc : p c <;> simp [hc, ih]

/-- Whether a comment starts is settled within its line. -/
theorem startsComment_append_newline (c : Char) (l b : List Char) :
    startsComment c (l ++ '\n' :: b) = startsComment c l := by
  cases l <;> simp [startsComment]

/-- A gap goes on up to the end of its line. -/
theorem splitGap_append_newline (inComment : Bool) (l b : List Char) :
    splitGap inComment (l ++ '\n' :: b) =
      ((splitGap inComment l).1, (splitGap inComment l).2 ++ '\n' :: b) := by
  induction l generalizing inComment with
  | nil => simp [splitGap, startsComment, isGapBlank]
  | cons c l ih =>
    rw [List.cons_append, splitGap, splitGap, startsComment_append_newline, ih, ih]
    split
    · rfl
    · split <;> rfl

theorem ofPair?_newline (c : Char) : Mark.ofPair? c '\n' = none := by
  unfold Mark.ofPair?
  split <;> simp_all

/-- A number ends at the end of its line at the latest. -/
theorem number_append_newline (l b : List Char) : number (l ++ '\n' :: b) = number l := by
  obtain ⟨htake, hdrop⟩ := takeWhile_append_of_not (p := isDigit) (d := '\n') rfl l b
  unfold number
  rw [htake, hdrop]
  -- the newline is no digit, so it neither goes on with the number nor with its places
  rcases l.dropWhile isDigit with _ | ⟨c, _ | ⟨d, rest⟩⟩
  · rfl
  · by_cases hc : c = '.'
    · subst hc
      rfl
    · simp [hc]
  · by_cases hc : c = '.'
    · subst hc
      have hplaces := (takeWhile_append_of_not (p := isDigit) (d := '\n') rfl (d :: rest) b).1
      rw [List.cons_append] at hplaces
      simp [hplaces]
    · simp [hc]

/-- A text that is closed does not depend on what follows. -/
theorem quoted_append_of_mem {l : List Char} (h : '"' ∈ l) (b : List Char) :
    quoted (l ++ b) = quoted l := by
  have hlt : (l.takeWhile (· != '"')).length < l.length := by
    refine Nat.lt_of_le_of_ne (List.takeWhile_sublist _).length_le fun heq => ?_
    have hbody : '"' ∈ l.takeWhile (· != '"') := by
      rwa [(List.takeWhile_sublist _).eq_of_length heq]
    simpa using List.mem_takeWhile_imp hbody
  have htake : (l ++ b).takeWhile (· != '"') = l.takeWhile (· != '"') := by
    rw [List.takeWhile_append, if_neg (Nat.ne_of_lt hlt)]
  unfold quoted
  rw [htake]
  simp only [List.length_append, Prod.mk.injEq, true_and]
  omega

/-- A text that is not closed goes on in the next line. -/
theorem quoted_append_newline_ne {l : List Char} (h : '"' ∉ l) (b : List Char) :
    (quoted (l ++ '\n' :: b)).1 ≠ (quoted l).1 := by
  have hall : ∀ c ∈ l, (c != '"') = true := fun c hc => by
    simp only [bne_iff_ne]
    rintro rfl
    exact h hc
  have htake : (l ++ '\n' :: b).takeWhile (· != '"') =
      l ++ '\n' :: b.takeWhile (· != '"') := by
    rw [List.takeWhile_append_of_pos hall]
    rfl
  have htake' : l.takeWhile (· != '"') = l := List.takeWhile_eq_self_iff.mpr hall
  simp [quoted, htake, htake']

theorem mark_append_newline (c : Char) (l b : List Char) : mark c (l ++ '\n' :: b) = mark c l := by
  unfold mark
  cases l with
  | nil => simp [ofPair?_newline]
  | cons => rfl

/-- Only an open text goes on beyond its line. -/
theorem scan_append_newline {c : Char} {l : List Char} (h : c = '"' → '"' ∈ l) (b : List Char) :
    scan c (l ++ '\n' :: b) = scan c l := by
  have hword : word (c :: l ++ '\n' :: b) = word (c :: l) := by
    unfold word
    rw [(takeWhile_append_of_not (p := continuesName) (d := '\n') rfl (c :: l) b).1]
  unfold scan
  rw [mark_append_newline, ← List.cons_append, number_append_newline, hword]
  split
  · rfl
  split
  next hquote => exact quoted_append_of_mem (h hquote) _
  next => rfl

/-- What a scan has found leaves no quote open, unless there is none that closes it. -/
theorem behind_scan {c : Char} {rest : List Char}
    (hgap : isGapBlank c = false ∧ startsComment c rest = false) (hclosed : c = '"' → '"' ∈ rest) :
    Reading.code.behind (c :: rest) = Reading.code.behind (rest.drop ((scan c rest).2 - 1)) := by
  have hspelled := (finds_scan hgap).spelledBy
  obtain hbehind | ⟨body, hbody, hspelling, hrest⟩ := behind_spelledBy hspelled
  · rwa [List.cons_append, List.take_append_drop] at hbehind
  · obtain ⟨hc, htake⟩ := List.cons.inj hspelling
    have hsource : rest = body := by
      rw [← htake, ← List.append_nil (List.take ..), ← hrest, List.take_append_drop]
    exact absurd (hsource ▸ hclosed hc) hbody

theorem behind_open {rest : List Char} (h : '"' ∉ rest) :
    Reading.code.behind ('"' :: rest) = .text := by
  have hbehind := behind_text_append h []
  rw [List.append_nil] at hbehind
  rw [Reading.behind, if_pos rfl, hbehind]
  rfl

/-- The tokens behind the end of a line are those of the text on the next lines, unless the line
ends inside quotes. -/
theorem tokensFrom_append_newline (p : Position) (l b : List Char) :
    ∃ init, tokensFrom p l = init ++ [⟨.eof, p.after l⟩] ∧
      (tokensFrom p (l ++ '\n' :: b) =
          init ++ ⟨.newline, p.after l⟩ :: tokensFrom ((p.after l).advance '\n') b ↔
        Reading.code.behind l ≠ .text) := by
  fun_induction tokensFrom p l with
  | case1 p l front start h =>
    obtain ⟨happend, hgap, -⟩ := splitGap_spec l
    rw [h, List.append_nil] at happend
    rw [h, happend] at hgap
    have hsplit : splitGap false (l ++ '\n' :: b) = (l, '\n' :: b) := by
      rw [splitGap_append_newline, h, happend, List.nil_append]
    have hnotText : Reading.code.behind l ≠ .text := by
      have hiff := behind_gap_iff hgap
      rw [List.append_nil] at hiff
      simp [hiff, Reading.behind]
    refine ⟨[], ?_, iff_of_true ?_ hnotText⟩
    · rw [← happend]
      rfl
    · exact tokensFrom_of_cons (n := 0) hsplit rfl
  | case2 p l front start c rest h found more ih =>
    obtain ⟨happend, hgap, hstart⟩ := splitGap_spec l
    have hmore : more ≤ rest.length :=
      Nat.sub_le_of_le_add (finds_scan (hstart c rest h)).length_bounds.2
    have hafter : p.after l = (start.after (c :: rest.take more)).after (rest.drop more) := by
      rw [← Position.after_append, List.cons_append, List.take_append_drop, ← h,
        ← Position.after_append, happend]
    have hgapIff : Reading.code.behind l = .text ↔ Reading.code.behind (c :: rest) = .text := by
      rw [← happend, behind_gap_iff hgap, h]
    have hsplit : splitGap false (l ++ '\n' :: b) = (front.1, c :: (rest ++ '\n' :: b)) := by
      rw [splitGap_append_newline, h]
      rfl
    obtain ⟨init, htokens, hiff⟩ := ih
    rw [← hafter] at htokens hiff
    refine ⟨⟨found.1, start⟩ :: init, by rw [htokens]; rfl, ?_⟩
    by_cases hclosed : c = '"' → '"' ∈ rest
    · have hscan := (scan_append_newline hclosed b).trans (scan_eq (hstart c rest h))
      rw [tokensFrom_of_cons hsplit hscan, List.take_append_of_le_length hmore,
        List.drop_append_of_le_length hmore, List.cons_append, List.cons_inj_right, hiff, Ne, Ne,
        hgapIff, behind_scan (hstart c rest h) hclosed]
    · -- the text goes on over the end of the line, so already this token is another one
      obtain ⟨rfl, hopen⟩ : c = '"' ∧ '"' ∉ rest := by simpa using hclosed
      refine iff_of_false (fun heq => ?_) (fun hne => hne (hgapIff.mpr (behind_open hopen)))
      rw [tokensFrom_of_cons hsplit (scan_eq ⟨rfl, rfl⟩)] at heq
      exact quoted_append_newline_ne hopen b (congrArg lexeme (List.cons.inj heq).1)

/-- Of two source texts with a newline between them, the upper one does not end inside quotes
exactly when the tokens are those of the upper text without its end, a newline at the place of this
end, and those of the lower text as many lines and characters later as stand before it. -/
theorem tokenize_append_newline (a b : String) :
    ∃ init stop, tokenize a = init ++ [⟨.eof, stop⟩] ∧
      (endsInText a = false ↔ tokenize (a ++ "\n" ++ b) =
        init ++ ⟨.newline, stop⟩ ::
          (tokenize b).map (later (1 + a.toList.count '\n') (a.length + 1))) := by
  obtain ⟨init, htokens, hiff⟩ := tokensFrom_append_newline Position.start a.toList b.toList
  have hsource : (a ++ "\n" ++ b).toList = a.toList ++ '\n' :: b.toList := by simp
  have hnext : (Position.start.after a.toList).advance '\n' =
      Position.start.later (1 + a.toList.count '\n') (a.length + 1) := by
    rw [Position.after_start, ← String.length_toList]
    simp only [Position.advance, if_true, Position.later, Position.start, Position.mk.injEq,
      true_and]
    omega
  refine ⟨init, _, htokens, ?_⟩
  rw [tokenize, tokenize, hsource, ← tokensFrom_later, ← hnext, hiff]
  simp [endsInText]

end Token

end RouteScript
