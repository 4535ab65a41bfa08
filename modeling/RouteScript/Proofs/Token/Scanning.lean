import RouteScript.Proofs.Token.Tiling

/-!
# What is spelled is found

A lexeme that is spelled somewhere in front of the rest of a source text is what a scan finds there,
with its whole spelling. So a source text made of spellings, with nothing between them, has exactly
the tokens that it spells.
-/

namespace RouteScript

open Text Token

/-- Where `spelling` stands in front of `rest`, no gap starts and a scan finds the lexeme with all
of its spelling. -/
def Token.FoundAt (l : Lexeme) (spelling rest : List Char) : Prop :=
  ∃ c more, spelling = c :: more ∧ isGapBlank c = false ∧ startsComment c (more ++ rest) = false ∧
    scan c (more ++ rest) = (l, more.length + 1)

namespace Token

/-- A stretch ends where its kind stops. -/
theorem takeWhile_of_stopsAt {p : Char → Bool} {l rest : List Char} (hl : ∀ c ∈ l, p c = true)
    (hrest : StopsAt p rest) :
    (l ++ rest).takeWhile p = l ∧ (l ++ rest).dropWhile p = rest := by
  rw [List.takeWhile_append_of_pos hl, List.dropWhile_append_of_pos hl]
  cases rest with
  | nil => simp
  | cons c rest => simp [hrest c rfl]

/-! ## Words -/

def isWord (word : String) : Bool :=
  match word.toList with
  | [] => false
  | c :: rest => startsName c && rest.all continuesName

def lexemeOf (word : String) : Lexeme :=
  match Keyword.ofWord? word with
  | some k => .keyword k
  | none => .name word

/-- A word is followed by what a name does not go on with. -/
theorem foundAt_word {word : String} {rest : List Char} (hword : isWord word = true)
    (hrest : StopsAt continuesName rest) : FoundAt (lexemeOf word) word.toList rest := by
  unfold isWord at hword
  split at hword
  next => contradiction
  next c more hspelling =>
    simp only [Bool.and_eq_true, List.all_eq_true] at hword
    obtain ⟨hblank, hhash, hslash, hnewline, hquote, hdigit⟩ := startsName_spec hword.1
    have hall : ∀ d ∈ c :: more, continuesName d = true := by
      simpa [continuesName, hword.1] using hword.2
    have htake := (takeWhile_of_stopsAt hall hrest).1
    rw [List.cons_append] at htake
    have hback : String.ofList (c :: more) = word := by rw [← hspelling, String.ofList_toList]
    refine ⟨c, more, hspelling, hblank, by simp [startsComment, hhash, hslash], ?_⟩
    rw [scan, if_neg hnewline, if_neg hquote, if_neg (by simp [hdigit]), if_pos hword.1]
    simp only [Token.word, htake, hback, lexemeOf]
    cases Keyword.ofWord? word <;> rfl

/-- A word starts with a character that goes on with a name. -/
theorem continuesName_of_isWord {word : String} (h : isWord word = true) (rest : List Char) :
    ∀ c ∈ (word.toList ++ rest).head?, continuesName c = true := by
  unfold isWord at h
  split at h
  next => contradiction
  next c more hspelling => simp_all [continuesName]

/-! ## Marks -/

theorem ofPair?_of_continuesName {c d : Char} (h : continuesName d = true) :
    Mark.ofPair? c d = none := by
  fun_cases Mark.ofPair? c d <;> first | rfl | exact absurd h (by decide)

/-- Characters that are marks start nothing else. -/
theorem ofChar?_spec {c : Char} {m : Mark} (h : Mark.ofChar? c = some m) :
    isGapBlank c = false ∧ c ≠ '#' ∧ c ≠ '\n' ∧ c ≠ '"' ∧ isDigit c = false ∧
      startsName c = false := by
  revert h
  fun_cases Mark.ofChar? c <;> intro h <;> first | decide | contradiction

/-- A mark of one character is found in front of a name or a number. -/
theorem foundAt_char {c : Char} {m : Mark} {rest : List Char} (hm : Mark.ofChar? c = some m)
    (hrest : ∀ d ∈ rest.head?, continuesName d = true) : FoundAt (.mark m) [c] rest := by
  obtain ⟨hblank, hhash, hnewline, hquote, hdigit, hname⟩ := ofChar?_spec hm
  have hpair : rest.head?.bind (Mark.ofPair? c) = none :=
    Option.bind_eq_none_iff.mpr fun d hd => ofPair?_of_continuesName (hrest d hd)
  have hslash : (rest.head? == some '/') = false := by
    refine beq_eq_false_iff_ne.mpr fun hhead => ?_
    exact absurd (hrest '/' hhead) (by decide)
  refine ⟨c, [], rfl, hblank, by simp [startsComment, hhash, hslash], ?_⟩
  simp [scan, hnewline, hquote, hdigit, hname, mark, hpair, hm]

/-- A mark of two characters is found in front of anything. -/
theorem foundAt_pair {c d : Char} {m : Mark} {rest : List Char} (hm : Mark.ofPair? c d = some m) :
    FoundAt (.mark m) [c, d] rest := by
  revert hm
  fun_cases Mark.ofPair? c d <;> rintro ⟨⟩ <;> exact ⟨_, _, rfl, rfl, rfl, rfl⟩

/-! ## Numbers -/

/-- Digits are found as one number, unless a fraction follows. -/
theorem foundAt_digits {digits rest : List Char} (hne : digits ≠ [])
    (hdigits : ∀ c ∈ digits, isDigit c = true) (hrest : StopsAt isDigit rest)
    (hpoint : rest.head? = some '.' → StopsAt isDigit rest.tail) :
    FoundAt (match Decimal.int64? digits with
      | some n => .integer n
      | none => .illegal (String.ofList digits)) digits rest := by
  obtain ⟨c, more, rfl⟩ := List.exists_cons_of_ne_nil hne
  have hc := hdigits c (by simp)
  have hother (d : Char) (hd : isDigit d = false) : c ≠ d := by
    rintro rfl
    simp [hd] at hc
  obtain ⟨htake, hdrop⟩ := takeWhile_of_stopsAt hdigits hrest
  rw [List.cons_append] at htake hdrop
  refine ⟨c, more, rfl, ?_, ?_, ?_⟩
  · simp [isGapBlank, hother ' ' rfl, hother '\t' rfl, hother '\r' rfl]
  · simp [startsComment, hother '#' rfl, hother '/' rfl]
  · rw [scan, if_neg (hother _ rfl), if_neg (hother _ rfl), if_pos hc]
    simp only [number, htake, hdrop]
    split
    next d tail =>
      have hd : isDigit d = false := hpoint rfl d rfl
      rw [if_neg (by simp [hd])]
      rfl
    next => rfl

/-! ## Sequences of spellings -/

theorem tokensFrom_nil (p : Position) : tokensFrom p [] = [⟨.eof, p⟩] :=
  tokensFrom_of_nil (show splitGap false [] = ([], []) from rfl)

/-- A lexeme that is found at the front is the first token, and the others follow behind its
spelling. -/
theorem tokensFrom_of_foundAt {l : Lexeme} {spelling rest : List Char}
    (h : FoundAt l spelling rest) (p : Position) :
    tokensFrom p (spelling ++ rest) = ⟨l, p⟩ :: tokensFrom (p.after spelling) rest := by
  obtain ⟨c, more, rfl, hblank, hcomment, hscan⟩ := h
  rw [List.cons_append, tokensFrom_of_cons (splitGap_of_not hblank hcomment) hscan,
    List.take_left, List.drop_left]
  rfl

end Token

end RouteScript
