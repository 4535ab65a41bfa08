import Mathlib.Data.List.Chain
import Mathlib.Data.List.DropRight
import RouteScript.Proofs.Token.Spelling

/-!
# Tokens and their places

The tokens of a source text tile it. Each of them starts at the place that it names and goes on for
its spelling; between the end of a token and the start of the next one there is a gap of blanks,
which a comment may close. Spellings and gaps are described on their own, in front of what follows
them in the source.
-/

namespace RouteScript

open Text Token

/-! ## Gaps and spellings -/

/-- What follows does not start with a character of the given kind. -/
def StopsAt (p : Char → Bool) (rest : List Char) : Prop := ∀ c ∈ rest.head?, p c = false

/-- A comment: it starts with `#` or two slashes and runs up to the end of its line, which is not
part of it. -/
structure IsComment (comment rest : List Char) : Prop where
  starts : ['#'] <+: comment ∨ ['/', '/'] <+: comment
  inLine : '\n' ∉ comment
  ends : StopsAt (· != '\n') rest

/-- A gap: blanks, with at most one comment behind them. -/
def IsGap (gap rest : List Char) : Prop :=
  ∃ blanks comment, gap = blanks ++ comment ∧ (∀ c ∈ blanks, isGapBlank c = true) ∧
    (comment = [] ∨ IsComment comment rest)

/-- The lexeme is what the spelling means in front of the rest of the source. Words and numbers go
on as far as they can, two characters that make a mark together are one, and a text without its
closing quote takes up the rest of the source. -/
inductive Lexeme.SpelledBy : Lexeme → List Char → List Char → Prop
  | newline {rest : List Char} : SpelledBy .newline ['\n'] rest
  | text {body rest : List Char} (h : '"' ∉ body) :
    SpelledBy (.text (String.ofList body)) ('"' :: body ++ ['"']) rest
  | openText {body : List Char} (h : '"' ∉ body) :
    SpelledBy (.text (String.ofList body)) ('"' :: body) []
  | keyword {word rest : List Char} {k : Keyword}
    (h : Keyword.ofWord? (String.ofList word) = some k) (hrest : StopsAt continuesName rest) :
    SpelledBy (.keyword k) word rest
  | name {word rest : List Char} (h : isNameWord (String.ofList word) = true)
    (hrest : StopsAt continuesName rest) : SpelledBy (.name (String.ofList word)) word rest
  | integer {digits rest : List Char} {n : Int64} (hne : digits ≠ [])
    (h : ∀ c ∈ digits, isDigit c = true) (hvalue : (decimalValue digits : Int) = n.toInt)
    (hrest : StopsAt isDigit rest) (hpoint : rest.head? = some '.' → StopsAt isDigit rest.tail) :
    SpelledBy (.integer n) digits rest
  | tooLarge {digits rest : List Char} (hne : digits ≠ []) (h : ∀ c ∈ digits, isDigit c = true)
    (hvalue : Int64.maxValue.toInt < decimalValue digits)
    (hrest : StopsAt isDigit rest) (hpoint : rest.head? = some '.' → StopsAt isDigit rest.tail) :
    SpelledBy (.illegal (String.ofList digits)) digits rest
  | float {whole places rest : List Char} (hwhole : whole ≠ []) (hplaces : places ≠ [])
    (h : ∀ c ∈ whole ++ places, isDigit c = true) (hrest : StopsAt isDigit rest) :
    SpelledBy
      (.float (Decimal.nearest false (decimalValue (whole ++ places)) (-places.length)))
      (whole ++ '.' :: places) rest
  | pair {c d : Char} {m : Mark} {rest : List Char} (h : Mark.ofPair? c d = some m) :
    SpelledBy (.mark m) [c, d] rest
  | mark {c : Char} {m : Mark} {rest : List Char} (h : Mark.ofChar? c = some m)
    (hgap : startsComment c rest = false)
    (hrest : StopsAt (fun d => (Mark.ofPair? c d).isSome) rest) : SpelledBy (.mark m) [c] rest
  | stray {c : Char} {rest : List Char} (h : Mark.ofChar? c = none)
    (hgap : isGapBlank c = false ∧ startsComment c rest = false)
    (hother : c ≠ '\n' ∧ c ≠ '"' ∧ isDigit c = false ∧ startsName c = false)
    (hrest : StopsAt (fun d => (Mark.ofPair? c d).isSome) rest) :
    SpelledBy (.illegal (String.singleton c)) [c] rest

theorem Lexeme.SpelledBy.ne_eof {l : Lexeme} {spelling rest : List Char}
    (h : l.SpelledBy spelling rest) : l ≠ .eof := by
  cases h <;> simp

theorem stopsAt_dropWhile (p : Char → Bool) (l : List Char) : StopsAt p (l.dropWhile p) := by
  intro c hc
  have h := List.head?_dropWhile_not p l
  rw [Option.mem_def.mp hc] at h
  exact h

namespace Token

/-! ## Reading gaps -/

theorem splitGap_true (l : List Char) :
    splitGap true l = (l.takeWhile (· != '\n'), l.dropWhile (· != '\n')) := by
  induction l with
  | nil => rfl
  | cons c rest ih =>
    by_cases hc : c = '\n'
    · subst hc
      rfl
    · simp [splitGap, hc, ih]

/-- A comment extends to the end of its line. -/
theorem isComment_of_startsComment {c : Char} {rest : List Char} (h : startsComment c rest = true) :
    IsComment (c :: rest.takeWhile (· != '\n')) (rest.dropWhile (· != '\n')) := by
  have hinLine : '\n' ∉ rest.takeWhile (· != '\n') := fun hmem => by
    simpa using List.mem_takeWhile_imp hmem
  simp only [startsComment, Bool.or_eq_true, Bool.and_eq_true, beq_iff_eq] at h
  obtain rfl | ⟨rfl, hslash⟩ := h
  · exact ⟨.inl ⟨_, rfl⟩, by simpa using hinLine, stopsAt_dropWhile _ _⟩
  · obtain ⟨tail, rfl⟩ := List.head?_eq_some_iff.mp hslash
    exact ⟨.inr ⟨_, rfl⟩, by simpa using hinLine, stopsAt_dropWhile _ _⟩

/-- A gap is split off as far as it goes. -/
theorem splitGap_spec (l : List Char) :
    (splitGap false l).1 ++ (splitGap false l).2 = l ∧
      IsGap (splitGap false l).1 (splitGap false l).2 ∧
      ∀ c rest, (splitGap false l).2 = c :: rest →
        isGapBlank c = false ∧ startsComment c rest = false := by
  induction l with
  | nil => exact ⟨rfl, ⟨[], [], rfl, by simp, .inl rfl⟩, by simp [splitGap]⟩
  | cons c rest ih =>
    by_cases hcomment : startsComment c rest = true
    · have hsplit : splitGap false (c :: rest) =
          (c :: rest.takeWhile (· != '\n'), rest.dropWhile (· != '\n')) := by
        simp [splitGap, hcomment, splitGap_true]
      rw [hsplit]
      refine ⟨by simp, ⟨[], _, rfl, by simp, .inr (isComment_of_startsComment hcomment)⟩, ?_⟩
      intro d tail hd
      have hstops : StopsAt (· != '\n') (d :: tail) := hd ▸ stopsAt_dropWhile _ rest
      obtain rfl : d = '\n' := by simpa using hstops d rfl
      exact ⟨rfl, rfl⟩
    · have hcomment : startsComment c rest = false := by simpa using hcomment
      by_cases hblank : isGapBlank c = true
      · have hsplit : splitGap false (c :: rest) =
            (c :: (splitGap false rest).1, (splitGap false rest).2) := by
          simp [splitGap, hcomment, hblank]
        obtain ⟨happend, ⟨blanks, comment, hgap, hblanks, hend⟩, hstart⟩ := ih
        rw [hsplit]
        refine ⟨by simp [happend], ⟨c :: blanks, comment, by simp [hgap], ?_, hend⟩, hstart⟩
        simpa [hblank] using hblanks
      · have hblank : isGapBlank c = false := by simpa using hblank
        rw [splitGap_of_not hblank hcomment]
        refine ⟨rfl, ⟨[], [], rfl, by simp, .inl rfl⟩, ?_⟩
        rintro d tail ⟨⟩
        exact ⟨hblank, hcomment⟩

/-! ## Reading spellings -/

/-- The part of `l` that a scan has found spells the lexeme in front of what is left. -/
def Finds (l : List Char) (found : Lexeme × Nat) : Prop :=
  ∃ spelling rest, l = spelling ++ rest ∧ found.2 = spelling.length ∧ spelling ≠ [] ∧
    found.1.SpelledBy spelling rest

/-- What is found is spelled by the characters that it takes. -/
theorem Finds.spelledBy {c : Char} {l : List Char} {found : Lexeme × Nat}
    (h : Finds (c :: l) found) :
    found.1.SpelledBy (c :: l.take (found.2 - 1)) (l.drop (found.2 - 1)) := by
  obtain ⟨spelling, rest, hsplit, hlength, hne, hspelled⟩ := h
  obtain ⟨d, more, rfl⟩ := List.exists_cons_of_ne_nil hne
  obtain ⟨rfl, rfl⟩ := List.cons.inj hsplit
  simpa [hlength] using hspelled

/-- What is found takes at least one character and none beyond the end. -/
theorem Finds.length_bounds {l : List Char} {found : Lexeme × Nat} (h : Finds l found) :
    0 < found.2 ∧ found.2 ≤ l.length := by
  obtain ⟨spelling, rest, rfl, hlength, hne, -⟩ := h
  rw [hlength]
  exact ⟨List.length_pos_iff.mpr hne, by simp⟩

theorem finds_quoted (l : List Char) : Finds ('"' :: l) (quoted l) := by
  have hbody : '"' ∉ l.takeWhile (· != '"') := fun hmem => by
    simpa using List.mem_takeWhile_imp hmem
  have happend := List.takeWhile_append_dropWhile (p := (· != '"')) (l := l)
  have hlength := congrArg List.length happend
  rw [List.length_append] at hlength
  cases hrest : l.dropWhile (· != '"') with
  | nil =>
    rw [hrest, List.append_nil] at happend
    refine ⟨'"' :: l, [], by simp, ?_, by simp, ?_⟩
    · simp [quoted, happend]
    · simpa [quoted, happend] using Lexeme.SpelledBy.openText (happend ▸ hbody)
  | cons c rest =>
    have hstops : StopsAt (· != '"') (c :: rest) := hrest ▸ stopsAt_dropWhile _ l
    obtain rfl : c = '"' := by simpa using hstops c rfl
    rw [hrest] at happend hlength
    refine ⟨'"' :: l.takeWhile (· != '"') ++ ['"'], rest, ?_, ?_, by simp, .text hbody⟩
    · simp [happend]
    · simp only [quoted, List.length_append, List.length_cons, List.length_nil] at hlength ⊢
      omega

theorem finds_word {c : Char} (rest : List Char) (hc : startsName c = true) :
    Finds (c :: rest) (word (c :: rest)) := by
  have hstops := stopsAt_dropWhile continuesName (c :: rest)
  have hsplit := (List.takeWhile_append_dropWhile (p := continuesName) (l := c :: rest)).symm
  have hletters : (c :: rest).takeWhile continuesName = c :: rest.takeWhile continuesName := by
    simp [continuesName, hc]
  have hne : (c :: rest).takeWhile continuesName ≠ [] := by simp [hletters]
  unfold word
  dsimp only
  split
  next k hk => exact ⟨_, _, hsplit, rfl, hne, .keyword hk hstops⟩
  next hk =>
    refine ⟨_, _, hsplit, rfl, hne, .name ?_ hstops⟩
    rw [hletters] at hk ⊢
    simp only [isNameWord, String.toList_ofList, hc, hk, Bool.true_and, Option.isNone_none,
      Bool.and_true, List.all_eq_true]
    exact fun d hd => List.mem_takeWhile_imp hd

/-- Digits are a whole number, unless it is too large. -/
theorem int64?_cases {ds : List Char} (hne : ds ≠ []) (hds : ∀ c ∈ ds, isDigit c = true) :
    (∃ n, Decimal.int64? ds = some n ∧ (decimalValue ds : Int) = n.toInt) ∨
      Decimal.int64? ds = none ∧ Int64.maxValue.toInt < decimalValue ds := by
  have hds' : ds.all isDigit = true := List.all_eq_true.mpr hds
  by_cases hfits : (decimalValue ds : Int) ≤ Int64.maxValue.toInt
  · have hlow : Int64.minValue.toInt ≤ (decimalValue ds : Int) :=
      Int.le_trans (by decide) (Int.natCast_nonneg _)
    refine .inl ⟨Int64.ofInt (decimalValue ds), ?_, (Int64.toInt_ofInt_of_le hlow ?_).symm⟩
    · simp [Decimal.int64?, splitSign_digits hds, hne, hds', Decimal.fitsInt64, hfits]
    · exact Int.lt_of_le_of_lt hfits (by decide)
  · refine .inr ⟨?_, Int.not_le.mp hfits⟩
    simp [Decimal.int64?, splitSign_digits hds, hne, hds', Decimal.fitsInt64, hfits]

theorem finds_whole {ds rest : List Char} (hne : ds ≠ []) (hds : ∀ c ∈ ds, isDigit c = true)
    (hrest : StopsAt isDigit rest) (hpoint : rest.head? = some '.' → StopsAt isDigit rest.tail) :
    Finds (ds ++ rest)
      (match Decimal.int64? ds with
        | some n => Lexeme.integer n
        | none => Lexeme.illegal (String.ofList ds), ds.length) := by
  obtain ⟨n, hn, hvalue⟩ | ⟨hn, hvalue⟩ := int64?_cases hne hds
  · rw [hn]
    exact ⟨ds, rest, rfl, rfl, hne, .integer hne hds hvalue hrest hpoint⟩
  · rw [hn]
    exact ⟨ds, rest, rfl, rfl, hne, .tooLarge hne hds hvalue hrest hpoint⟩

/-- What starts with a digit is found as a number, whole or with a fraction. -/
theorem finds_number {c : Char} (tail : List Char) (hc : isDigit c = true) :
    Finds (c :: tail) (number (c :: tail)) := by
  have hsplit := (List.takeWhile_append_dropWhile (p := isDigit) (l := c :: tail)).symm
  have hstops := stopsAt_dropWhile isDigit (c :: tail)
  have hne : (c :: tail).takeWhile isDigit ≠ [] := by simp [hc]
  have hwhole : ∀ d ∈ (c :: tail).takeWhile isDigit, isDigit d = true :=
    fun _ hd => List.mem_takeWhile_imp hd
  have bare (hpoint : ((c :: tail).dropWhile isDigit).head? = some '.' →
      StopsAt isDigit ((c :: tail).dropWhile isDigit).tail) :=
    finds_whole hne hwhole hstops hpoint
  rw [← hsplit] at bare
  unfold number
  dsimp only
  split
  next d rest hdrop =>
    rw [hdrop] at hsplit bare
    split
    next hd =>
      refine ⟨(c :: tail).takeWhile isDigit ++ '.' :: (d :: rest).takeWhile isDigit,
        (d :: rest).dropWhile isDigit, ?_, ?_, by simp, .float hne (by simp [hd]) ?_ ?_⟩
      · rw [List.append_assoc, List.cons_append, List.takeWhile_append_dropWhile]
        exact hsplit
      · simp only [List.length_append, List.length_cons]
        omega
      · exact fun e he => (List.mem_append.mp he).elim (hwhole e) List.mem_takeWhile_imp
      · exact stopsAt_dropWhile _ _
    next hd => exact bare fun _ => by simpa [StopsAt] using hd
  next hdrop =>
    refine bare fun hpoint => ?_
    obtain ⟨rest, hrest⟩ := List.head?_eq_some_iff.mp hpoint
    rw [hrest]
    cases rest with
    | nil => simp [StopsAt]
    | cons d rest => exact absurd hrest (hdrop d rest)

/-- What starts with no letter, digit or quote is found as a mark or as an illegal character. -/
theorem finds_mark {c : Char} {rest : List Char}
    (hgap : isGapBlank c = false ∧ startsComment c rest = false)
    (hother : c ≠ '\n' ∧ c ≠ '"' ∧ isDigit c = false ∧ startsName c = false) :
    Finds (c :: rest) (mark c rest) := by
  unfold mark
  split
  next m hm =>
    obtain ⟨d, hd, hpair⟩ := Option.bind_eq_some_iff.mp hm
    obtain ⟨tail, rfl⟩ := List.head?_eq_some_iff.mp hd
    exact ⟨[c, d], tail, rfl, rfl, by simp, .pair hpair⟩
  next hm =>
    have hstops : StopsAt (fun d => (Mark.ofPair? c d).isSome) rest := by
      intro d hd
      rw [Option.mem_def.mp hd] at hm
      simpa using hm
    split
    next m hchar => exact ⟨[c], rest, rfl, rfl, by simp, .mark hchar hgap.2 hstops⟩
    next hchar => exact ⟨[c], rest, rfl, rfl, by simp, .stray hchar hgap hother hstops⟩

/-- Where no gap starts, a scan finds a token. -/
theorem finds_scan {c : Char} {rest : List Char}
    (hgap : isGapBlank c = false ∧ startsComment c rest = false) :
    Finds (c :: rest) (scan c rest) := by
  unfold scan
  split
  next hnewline =>
    subst hnewline
    exact ⟨['\n'], rest, rfl, rfl, by simp, .newline⟩
  next hnewline =>
    split
    next hquote =>
      subst hquote
      exact finds_quoted rest
    next hquote =>
      split
      next hdigit => exact finds_number rest hdigit
      next hdigit =>
        split
        next hname => exact finds_word rest hname
        next hname =>
          exact finds_mark hgap ⟨hnewline, hquote, by simpa using hdigit, by simpa using hname⟩

end Token

/-! ## Places -/

/-- The line and the column of a place count what stands before it. -/
theorem Position.after_start (l : List Char) :
    Position.start.after l =
      ⟨1 + l.count '\n', 1 + (l.rtakeWhile (· != '\n')).length, l.length⟩ := by
  induction l using List.reverseRecOn with
  | nil => rfl
  | append_singleton l c ih =>
    have hstep : Position.start.after (l ++ [c]) = (Position.start.after l).advance c := by
      simp [after]
    rw [hstep, ih, advance]
    by_cases hc : c = '\n'
    · simp [hc, List.rtakeWhile_concat_neg, Nat.add_assoc]
    · simp [hc, List.rtakeWhile_concat_pos, Nat.add_assoc]

theorem Position.after_append (p : Position) (l l' : List Char) :
    p.after (l ++ l') = (p.after l).after l' := List.foldl_append ..

namespace Token

/-- The tokens tile what follows `before` in the source: gaps and spellings take turns, and the end
of the source comes last. -/
inductive Tile : List Char → List Char → List Token → Prop
  | eof {before gap : List Char} (hgap : IsGap gap []) :
    Tile before gap [⟨.eof, Position.start.after (before ++ gap)⟩]
  | token {before gap spelling rest : List Char} {l : Lexeme} {tokens : List Token}
    (hgap : IsGap gap (spelling ++ rest)) (hne : spelling ≠ []) (hl : l.SpelledBy spelling rest)
    (h : Tile (before ++ gap ++ spelling) rest tokens) :
    Tile before (gap ++ spelling ++ rest) (⟨l, Position.start.after (before ++ gap)⟩ :: tokens)

/-- The tokens and the gaps between them cover the source, from any place on. -/
theorem tile_tokensFrom (p : Position) (l : List Char) :
    ∀ before, p = Position.start.after before → Tile before l (tokensFrom p l) := by
  fun_induction tokensFrom p l with
  | case1 p l front start h =>
    intro before hp
    obtain ⟨happend, hgap, -⟩ := splitGap_spec l
    rw [h, List.append_nil] at happend
    rw [h, happend] at hgap
    have hstart : start = Position.start.after (before ++ l) := by
      rw [Position.after_append, ← hp, ← happend]
    rw [hstart]
    exact .eof hgap
  | case2 p l front start c rest h found more ih =>
    intro before hp
    obtain ⟨happend, hgap, hscan⟩ := splitGap_spec l
    have hspelled := (finds_scan (hscan c rest h)).spelledBy
    have hrest : c :: rest = c :: rest.take more ++ rest.drop more := by simp
    rw [h, hrest] at happend hgap
    have hstart : start = Position.start.after (before ++ front.1) := by
      rw [Position.after_append, ← hp]
    have hnext := ih (before ++ front.1 ++ c :: rest.take more)
      (by rw [Position.after_append, hstart])
    have htoken := Tile.token hgap (by simp) hspelled hnext
    rw [List.append_assoc, happend, ← hstart] at htoken
    exact htoken

/-! ## Neighbours -/

def between (chars : List Char) (i j : Nat) : List Char := (chars.take j).drop i

/-- The token `b` is the next one behind `a`: the spelling of `a` ends, and a gap follows it up to
`b`. -/
def Adjoins (chars : List Char) (a b : Token) : Prop :=
  ∃ stop, a.position.offset < stop ∧ stop ≤ b.position.offset ∧
    a.lexeme.SpelledBy (between chars a.position.offset stop) (chars.drop stop) ∧
    IsGap (between chars stop b.position.offset) (chars.drop b.position.offset)

def GapUpTo (chars : List Char) (start : Nat) (t : Token) : Prop :=
  start ≤ t.position.offset ∧
    IsGap (between chars start t.position.offset) (chars.drop t.position.offset)

@[simp] theorem offset_after_start (l : List Char) :
    (Position.start.after l).offset = l.length := by
  rw [Position.after_start]

theorem between_append (u v w : List Char) :
    between (u ++ (v ++ w)) u.length (u ++ v).length = v := by
  rw [between, ← List.append_assoc, List.take_left, List.drop_left]

/-- What stands before a token is a gap up to it. -/
theorem gapUpTo_append {before gap rest : List Char} (h : IsGap gap rest) (l : Lexeme) :
    GapUpTo (before ++ (gap ++ rest)) before.length
      ⟨l, Position.start.after (before ++ gap)⟩ := by
  refine ⟨by simp, ?_⟩
  simp only [offset_after_start, between_append]
  rwa [← List.append_assoc, List.drop_left]

/-- The first of some tiles stands behind a gap, and each of the others behind its predecessor. -/
theorem Tile.adjoins {before l : List Char} {tokens : List Token} (h : Tile before l tokens) :
    (∀ first ∈ tokens.head?, GapUpTo (before ++ l) before.length first) ∧
      tokens.IsChain (Adjoins (before ++ l)) := by
  induction h with
  | eof hgap =>
    refine ⟨?_, .singleton _⟩
    rintro first ⟨⟩
    simpa using gapUpTo_append hgap .eof
  | @token before gap spelling rest l tokens hgap hne hl h ih =>
    have hchars : before ++ (gap ++ spelling ++ rest) =
        (before ++ gap ++ spelling) ++ rest := by simp
    refine ⟨?_, ?_⟩
    · rintro first ⟨⟩
      simpa using gapUpTo_append hgap l
    · rw [hchars]
      refine ih.2.cons fun b hb => ?_
      obtain ⟨hle, hnext⟩ := ih.1 b hb
      refine ⟨_, ?_, hle, ?_, hnext⟩
      · simpa using List.length_pos_iff.mpr hne
      · rw [offset_after_start, List.drop_left, List.append_assoc (before ++ gap), between_append]
        exact hl

/-! ## Single tokens -/

/-- The place of a token is behind the characters before its offset. -/
theorem Tile.position_eq {before l : List Char} {tokens : List Token} (h : Tile before l tokens) :
    ∀ t ∈ tokens, t.position = Position.start.after ((before ++ l).take t.position.offset) := by
  have hstart (u v : List Char) : Position.start.after u =
      Position.start.after ((u ++ v).take (Position.start.after u).offset) := by simp
  induction h with
  | @eof before gap hgap =>
    intro t ht
    obtain rfl := List.mem_singleton.mp ht
    simpa only [List.append_nil] using hstart (before ++ gap) []
  | @token before gap spelling rest l tokens hgap hne hl h ih =>
    intro t ht
    obtain rfl | ht := List.mem_cons.mp ht
    · simpa only [List.append_assoc] using hstart (before ++ gap) (spelling ++ rest)
    · simpa only [List.append_assoc] using ih t ht

/-- The end of the source is the last token and no other one. -/
theorem Tile.eq_append_eof {before l : List Char} {tokens : List Token} (h : Tile before l tokens) :
    ∃ init, tokens = init ++ [⟨.eof, Position.start.after (before ++ l)⟩] ∧
      ∀ t ∈ init, t.lexeme ≠ .eof := by
  induction h with
  | eof hgap => exact ⟨[], rfl, by simp⟩
  | @token before gap spelling rest l tokens hgap hne hl h ih =>
    obtain ⟨init, rfl, hinit⟩ := ih
    refine ⟨⟨l, Position.start.after (before ++ gap)⟩ :: init, by simp, ?_⟩
    simpa [hl.ne_eof] using hinit

theorem not_isEof_of_tokenize {source : String} {ls : List Lexeme}
    (h : (tokenize source).map Token.lexeme = ls ++ [.eof]) : ls.all (!·.isEof) = true := by
  have htile : Tile [] source.toList (tokenize source) := tile_tokensFrom _ _ [] rfl
  obtain ⟨init, htokens, hinit⟩ := htile.eq_append_eof
  rw [htokens, List.map_append] at h
  obtain rfl : init.map Token.lexeme = ls := (List.append_inj' h rfl).1
  simp only [List.all_map, List.all_eq_true, Function.comp_apply]
  intro t ht
  have hne := hinit t ht
  cases hl : t.lexeme <;> simp_all [Lexeme.isEof]

/-- The tokens of a source text start at strictly increasing offsets. The last one and no other is
the end of the source, and it stands behind all characters. The line of a token is one more than the
number of newlines before it, and its column one more than the number of characters since the last
of them. A gap stands before the first token and between the end of a token and the next one. -/
theorem tokenize_tiles (source : String) :
    let chars := source.toList
    let tokens := tokenize source
    tokens.Pairwise (fun a b => a.position.offset < b.position.offset) ∧
    (∃ init last, tokens = init ++ [last] ∧ last.lexeme = .eof ∧
      last.position.offset = chars.length ∧ ∀ t ∈ init, t.lexeme ≠ .eof) ∧
    (∀ t ∈ tokens,
      t.position.line = 1 + (chars.take t.position.offset).count '\n' ∧
      t.position.column =
        1 + ((chars.take t.position.offset).rtakeWhile (· != '\n')).length) ∧
    (∀ first ∈ tokens.head?, GapUpTo chars 0 first) ∧
    tokens.IsChain (Adjoins chars) := by
  intro chars tokens
  have htile : Tile [] chars tokens := tile_tokensFrom _ _ [] rfl
  obtain ⟨hfirst, hchain⟩ := htile.adjoins
  obtain ⟨init, htokens, hinit⟩ := htile.eq_append_eof
  refine ⟨?_, ⟨init, _, htokens, rfl, by simp, hinit⟩, fun t ht => ?_, hfirst, hchain⟩
  · have hlt : tokens.IsChain (fun a b => a.position.offset < b.position.offset) :=
      hchain.imp fun a b ⟨_, hstop, hle, _⟩ => Nat.lt_of_lt_of_le hstop hle
    exact List.isChain_iff_pairwise.mp hlt
  · have hposition := htile.position_eq t ht
    rw [Position.after_start] at hposition
    exact ⟨congrArg Position.line hposition, congrArg Position.column hposition⟩

end Token

end RouteScript
