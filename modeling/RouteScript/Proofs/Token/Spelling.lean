import Mathlib.Data.List.Basic
import RouteScript.Token.Lexer

/-!
# Lexemes and their spellings

A lexeme that is shown and set off by a blank is found again. So a list of lexemes can be written as
a source text of which they are the tokens.
-/

namespace RouteScript

/-! ## Words and texts -/

/-- Whether a word is a name: it is spelled like one and is no keyword. -/
def isNameWord (word : String) : Bool :=
  match word.toList with
  | [] => false
  | c :: rest =>
    Token.startsName c && rest.all Token.continuesName && (Keyword.ofWord? word).isNone

def isQuotable (text : String) : Bool := !text.toList.contains '"'

theorem ofWord?_of_isNameWord {word : String} (h : isNameWord word = true) :
    Keyword.ofWord? word = none := by
  unfold isNameWord at h
  split at h <;> simp_all

/-- Whether a lexeme is found where it is shown. -/
def Lexeme.isSpelled : Lexeme → Bool
  | .integer n => decide (0 ≤ n)
  | .text s => isQuotable s
  | .name word => isNameWord word
  | .keyword _ | .mark _ => true
  | .float _ | .illegal _ | .newline | .eof => false

/-- A source text for some lexemes, with a blank behind each. -/
def Lexeme.source (ls : List Lexeme) : String := String.join (ls.map fun l => l.display ++ " ")

namespace Token

open Text

/-! ## Gaps -/

/-- Blanks belong to the gap before a token. -/
theorem splitGap_append {gap l : List Char} (hgap : ∀ c ∈ gap, isGapBlank c = true)
    (hl : splitGap false l = ([], l)) : splitGap false (gap ++ l) = (gap, l) := by
  induction gap with
  | nil => exact hl
  | cons c gap ih =>
    have hc := hgap c (by simp)
    have hcomment : startsComment c (gap ++ l) = false := by
      simp only [isGapBlank, Bool.or_eq_true, beq_iff_eq] at hc
      obtain (rfl | rfl) | rfl := hc <;> rfl
    rw [List.cons_append, splitGap, ih fun c' hc' => hgap c' (by simp [hc'])]
    simp [hcomment, hc]

theorem splitGap_of_not {c : Char} {rest : List Char} (hblank : isGapBlank c = false)
    (hcomment : startsComment c rest = false) :
    splitGap false (c :: rest) = ([], c :: rest) := by
  rw [splitGap]
  simp [hblank, hcomment]

theorem tokensFrom_of_nil {p : Position} {l gap : List Char} (h : splitGap false l = (gap, [])) :
    tokensFrom p l = [⟨.eof, p.after gap⟩] := by
  rw [tokensFrom]
  split
  · rw [h]
  · simp_all

/-- The first token stands behind the gap, and scanning goes on behind it. -/
theorem tokensFrom_of_cons {p : Position} {l gap rest : List Char} {c : Char} {found : Lexeme}
    {n : Nat} (h : splitGap false l = (gap, c :: rest)) (hscan : scan c rest = (found, n + 1)) :
    tokensFrom p l = ⟨found, p.after gap⟩ ::
      tokensFrom ((p.after gap).after (c :: rest.take n)) (rest.drop n) := by
  rw [tokensFrom]
  split
  · simp_all
  · rename_i heq
    rw [h] at heq
    obtain ⟨rfl, rfl⟩ := List.cons.inj heq
    rw [hscan, h]
    rfl

/-! ## Spellings -/

/-- The spelling of `l` starts no gap, and `l` is what is found there before a blank. -/
def Scans (l : Lexeme) (spelling : List Char) : Prop :=
  ∃ c rest, spelling = c :: rest ∧ isGapBlank c = false ∧
    ∀ tail, startsComment c (rest ++ ' ' :: tail) = false ∧
      scan c (rest ++ ' ' :: tail) = (l, rest.length + 1)

theorem takeWhile_append_blank {p : Char → Bool} {l : List Char} (hl : ∀ c ∈ l, p c = true)
    (hblank : p ' ' = false) (tail : List Char) :
    (l ++ ' ' :: tail).takeWhile p = l ∧ (l ++ ' ' :: tail).dropWhile p = ' ' :: tail := by
  rw [List.takeWhile_append_of_pos hl, List.dropWhile_append_of_pos hl]
  simp [hblank]

/-- Every mark is scanned from its spelling. -/
theorem scans_mark (m : Mark) : Scans (.mark m) m.spelling.toList := by
  cases m
  all_goals exact ⟨_, _, rfl, rfl, fun _ => ⟨rfl, rfl⟩⟩

/-- Characters that start names are neither blanks, quotes nor digits. -/
theorem startsName_spec {c : Char} (h : startsName c = true) :
    isGapBlank c = false ∧ c ≠ '#' ∧ c ≠ '/' ∧ c ≠ '\n' ∧ c ≠ '"' ∧ isDigit c = false := by
  have hne (c' : Char) (hc' : startsName c' = false) : c ≠ c' := by
    rintro rfl
    simp [hc'] at h
  refine ⟨?_, hne _ rfl, hne _ rfl, hne _ rfl, hne _ rfl, ?_⟩
  · simp [isGapBlank, hne ' ' rfl, hne '\t' rfl, hne '\r' rfl]
  · simp only [startsName, isLetter, isDigit, Char.le_def, UInt32.le_iff_toNat_le, Bool.or_eq_true,
      Bool.and_eq_true, decide_eq_true_eq, beq_iff_eq, Bool.and_eq_false_iff,
      decide_eq_false_iff_not] at h ⊢
    obtain ((⟨h, -⟩ | ⟨h, -⟩) | rfl) | rfl := h
    · exact .inr (Nat.not_le.mpr (Nat.lt_of_lt_of_le (by decide) h))
    · exact .inr (Nat.not_le.mpr (Nat.lt_of_lt_of_le (by decide) h))
    · decide
    · decide

/-- A word is scanned as a keyword or a name. -/
theorem scans_word {l : Lexeme} {word : String} {c : Char} {rest : List Char}
    (hword : word.toList = c :: rest) (hc : startsName c = true)
    (hrest : ∀ c ∈ rest, continuesName c = true)
    (hl : (match Keyword.ofWord? word with
      | some k => Lexeme.keyword k
      | none => Lexeme.name word) = l) : Scans l word.toList := by
  obtain ⟨hblank, hhash, hslash, hnewline, hquote, hdigit⟩ := startsName_spec hc
  refine ⟨c, rest, hword, hblank, fun tail => ⟨by simp [startsComment, hhash, hslash], ?_⟩⟩
  have hall : ∀ c' ∈ c :: rest, continuesName c' = true := by
    simpa [continuesName, hc] using hrest
  have htake := (takeWhile_append_blank hall rfl tail).1
  rw [List.cons_append] at htake
  have hspelling : String.ofList (c :: rest) = word := by rw [← hword, String.ofList_toList]
  rw [scan, if_neg hnewline, if_neg hquote, if_neg (by simp [hdigit]), if_pos hc]
  simp only [Token.word, htake, hspelling]
  cases hk : Keyword.ofWord? word <;> simp_all

/-- A text is scanned from its quoted form. -/
theorem scans_text {s : String} (h : isQuotable s = true) :
    Scans (.text s) (Lexeme.text s).display.toList := by
  refine ⟨'"', s.toList ++ ['"'], by simp [Lexeme.display], rfl, fun tail => ⟨rfl, ?_⟩⟩
  have hs : ∀ c ∈ s.toList, (c != '"') = true := by
    intro c hc
    simp only [isQuotable, List.contains_eq_mem, Bool.not_eq_true', decide_eq_false_iff_not] at h
    grind
  have hbody : ((s.toList ++ ['"']) ++ ' ' :: tail).takeWhile (· != '"') = s.toList := by
    rw [List.append_assoc, List.takeWhile_append_of_pos hs]
    simp
  rw [scan, if_neg (by decide), if_pos rfl]
  simp only [quoted, hbody]
  simp

theorem splitSign_digits {ds : List Char} (h : ∀ c ∈ ds, isDigit c = true) :
    Decimal.splitSign ds = (false, ds) := by
  fun_cases Decimal.splitSign ds
  · exact absurd (h '-' (by simp)) (by decide)
  · exact absurd (h '+' (by simp)) (by decide)
  · rfl

theorem int64?_digits {ds : List Char} {n : Int64} (hne : ds ≠ [])
    (hds : ∀ c ∈ ds, isDigit c = true) (hvalue : (decimalValue ds : Int) = n.toInt) :
    Decimal.int64? ds = some n := by
  have hfits : Decimal.fitsInt64 n.toInt = true := by
    have hlow := n.le_toInt
    have hhigh := n.toInt_lt
    simp only [Decimal.fitsInt64, Int64.toInt_minValue, Int64.toInt_maxValue, Bool.and_eq_true,
      decide_eq_true_eq]
    omega
  have hds' : ds.all isDigit = true := List.all_eq_true.mpr hds
  simp [Decimal.int64?, splitSign_digits hds, hne, hds', hvalue, hfits]

theorem scans_digits {ds : List Char} {n : Int64} (hne : ds ≠ [])
    (hds : ∀ c ∈ ds, isDigit c = true) (hvalue : (decimalValue ds : Int) = n.toInt) :
    Scans (.integer n) ds := by
  obtain ⟨c, rest, rfl⟩ := List.exists_cons_of_ne_nil hne
  have hc := hds c (by simp)
  have hne' (c' : Char) (hc' : isDigit c' = false) : c ≠ c' := by
    rintro rfl
    simp [hc'] at hc
  refine ⟨c, rest, rfl, ?_, fun tail => ⟨?_, ?_⟩⟩
  · simp [isGapBlank, hne' ' ' rfl, hne' '\t' rfl, hne' '\r' rfl]
  · simp [startsComment, hne' '#' rfl, hne' '/' rfl]
  · obtain ⟨htake, hdrop⟩ := takeWhile_append_blank hds rfl tail
    rw [List.cons_append] at htake hdrop
    rw [scan, if_neg (hne' _ rfl), if_neg (hne' _ rfl), if_pos hc]
    simp [number, htake, hdrop, int64?_digits hne hds hvalue]

/-- A whole number that is not negative is scanned from its digits. -/
theorem scans_integer {n : Int64} (h : 0 ≤ n) :
    Scans (.integer n) (Lexeme.integer n).display.toList := by
  have hn : ((n.toInt.toNat : Nat) : Int) = n.toInt := by
    rw [Int64.le_iff_toInt_le] at h
    exact Int.toNat_of_nonneg h
  have hdisplay : (Lexeme.integer n).display.toList = Nat.toDigits 10 n.toInt.toNat := by
    have hrepr (k : Nat) : toString (k : Int) = k.repr := rfl
    have hshow : (Lexeme.integer n).display = toString n.toInt := rfl
    rw [hshow, ← hn, hrepr, Nat.repr_eq_ofList_toDigits, String.toList_ofList]
    rfl
  rw [hdisplay]
  refine scans_digits Nat.toDigits_ne_nil ?_ ?_
  · exact fun c hc => Nat.isDigit_of_mem_toDigits (by decide) (by decide) hc
  · rw [← hn]
    exact congrArg _ Nat.ofDigitChars_ten_toDigits

/-- What is shown of a spelled lexeme is scanned as the lexeme. -/
theorem scans_of_isSpelled {l : Lexeme} (h : l.isSpelled = true) : Scans l l.display.toList := by
  cases l with
  | integer n => exact scans_integer (by simpa [Lexeme.isSpelled] using h)
  | text s => exact scans_text h
  | name word =>
    change isNameWord word = true at h
    have hkeyword := ofWord?_of_isNameWord h
    unfold isNameWord at h
    split at h
    · contradiction
    · rename_i c rest hword
      simp only [Bool.and_eq_true, List.all_eq_true] at h
      exact scans_word hword h.1.1 h.1.2 (by rw [Lexeme.display, hkeyword])
  | keyword k => cases k <;> exact scans_word rfl rfl (List.all_eq_true.mp rfl) rfl
  | mark m => exact scans_mark m
  | float | illegal | newline | eof => simp [Lexeme.isSpelled] at h

/-- Lexemes that are scanned where they are written are found again when a blank follows each. -/
theorem tokensFrom_flatMap {write : Lexeme → List Char} {ls : List Lexeme}
    (h : ∀ l ∈ ls, Scans l (write l)) (p : Position) (gap : List Char)
    (hgap : ∀ c ∈ gap, isGapBlank c = true) :
    (tokensFrom p (gap ++ ls.flatMap fun l => write l ++ [' '])).map lexeme = ls ++ [.eof] := by
  induction ls generalizing p gap with
  | nil =>
    rw [List.flatMap_nil, tokensFrom_of_nil (splitGap_append hgap rfl)]
    rfl
  | cons l ls ih =>
    obtain ⟨c, rest, hwritten, hblank, hscan⟩ := h l (by simp)
    obtain ⟨hcomment, hfound⟩ := hscan (ls.flatMap fun l => write l ++ [' '])
    rw [List.flatMap_cons, hwritten, List.append_assoc, List.singleton_append, List.cons_append]
    rw [tokensFrom_of_cons (splitGap_append hgap (splitGap_of_not hblank hcomment)) hfound,
      List.drop_left, List.map_cons, List.cons_append]
    exact congrArg (l :: ·)
      (ih (fun l' hl' => h l' (by simp [hl'])) _ [' '] (by simp [isGapBlank]))

/-- The tokens of the source text of spelled lexemes are these lexemes and the end. -/
theorem lexemes_tokenize_source {ls : List Lexeme} (h : ∀ l ∈ ls, l.isSpelled = true) :
    (tokenize (Lexeme.source ls)).map lexeme = ls ++ [.eof] := by
  have hsource : (Lexeme.source ls).toList = ls.flatMap fun l => l.display.toList ++ [' '] := by
    simp [Lexeme.source, List.flatMap, Function.comp_def]
  rw [tokenize, hsource]
  exact tokensFrom_flatMap (fun l hl => scans_of_isSpelled (h l hl)) _ [] (by simp)

end Token

end RouteScript
