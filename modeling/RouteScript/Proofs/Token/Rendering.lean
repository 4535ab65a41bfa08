import RouteScript.Proofs.Token.Tiling

/-!
# Writing tokens back

The tokens of a source text can be written out again, one blank apart. What is written is a source
text with the same lexemes, unless one of them is a number with places, which is shown rounded, or a
spelling that is no token. The layout of the first text is lost: its comments, its blanks and the
choice between two spellings of a keyword.
-/

namespace RouteScript

namespace Lexeme

/-- How a token is written in a source text. The end of the source has no spelling. -/
def written : Lexeme → String
  | .newline => "\n"
  | .eof => ""
  | l => l.display

/-- Whether a token can be written back: it is no number with places and nothing illegal. -/
def isLasting : Lexeme → Bool
  | .float _ | .illegal _ => false
  | _ => true

/-- What is found in a source text and can be written back is a newline, or it is shown as it is
spelled. -/
theorem SpelledBy.isSpelled {l : Lexeme} {spelling rest : List Char} (h : l.SpelledBy spelling rest)
    (hlasting : l.isLasting = true) : l = .newline ∨ l.isSpelled = true := by
  cases h with
  | newline => exact .inl rfl
  | text h | openText h => exact .inr (by simpa [Lexeme.isSpelled, isQuotable] using h)
  | keyword | pair | mark => exact .inr rfl
  | name h => exact .inr h
  | integer _ _ hvalue =>
    refine .inr (decide_eq_true (Int64.le_iff_toInt_le.mpr ?_))
    exact hvalue ▸ Int.natCast_nonneg _
  | tooLarge | float | stray => simp [isLasting] at hlasting

/-- A lexeme with a spelling of its own is written as it is displayed. -/
theorem written_of_isSpelled {l : Lexeme} (h : l.isSpelled = true) : l.written = l.display := by
  cases l with
  | newline | eof => simp [isSpelled] at h
  | _ => rfl

end Lexeme

namespace Token

/-- Some tokens as a source text, with a blank between each and the next. -/
def render (tokens : List Token) : String :=
  " ".intercalate (tokens.map fun t => t.lexeme.written)

/-- Every token of a tiling but the last is spelled in the source. -/
theorem Tile.spelledBy {before l : List Char} {tokens : List Token} (h : Tile before l tokens) :
    ∀ t ∈ tokens, t.lexeme = .eof ∨ ∃ spelling rest, t.lexeme.SpelledBy spelling rest := by
  induction h with
  | eof =>
    intro t ht
    exact .inl (congrArg lexeme (List.mem_singleton.mp ht))
  | token _ _ hl _ ih =>
    intro t ht
    obtain rfl | ht := List.mem_cons.mp ht
    · exact .inr ⟨_, _, hl⟩
    · exact ih t ht

theorem scans_newline : Scans .newline ['\n'] := ⟨'\n', [], rfl, rfl, fun _ => ⟨rfl, rfl⟩⟩

/-- A lexeme that is found in a source text and can be written back is found where it is written. -/
theorem scans_written {l : Lexeme} {spelling rest : List Char} (h : l.SpelledBy spelling rest)
    (hlasting : l.isLasting = true) : Scans l l.written.toList := by
  obtain rfl | hspelled := h.isSpelled hlasting
  · exact scans_newline
  · rw [Lexeme.written_of_isSpelled hspelled]
    exact scans_of_isSpelled hspelled

theorem intercalate_concat {α : Type} (sep : List α) (parts : List (List α)) (last : List α) :
    sep.intercalate (parts ++ [last]) = parts.flatMap (· ++ sep) ++ last := by
  induction parts with
  | nil => simp
  | cons part parts ih => cases parts <;> simp_all

/-- The end of the source adds nothing but the blank before it. -/
theorem toList_render (init : List Token) (p : Position) :
    (render (init ++ [⟨.eof, p⟩])).toList =
      (init.map lexeme).flatMap fun l => l.written.toList ++ [' '] := by
  have hend : (Lexeme.written .eof).toList = [] := rfl
  rw [render, String.toList_intercalate, List.map_append, List.map_append, List.map_singleton,
    List.map_singleton, intercalate_concat, hend, List.append_nil, List.flatMap_map,
    List.flatMap_map, List.flatMap_map]
  rfl

/-- Writing the tokens of a source text back, one blank apart, gives a source text with the same
lexemes, when none of them is a number with places or illegal. -/
theorem lexemes_tokenize_render (source : String)
    (h : ∀ t ∈ tokenize source, t.lexeme.isLasting = true) :
    (tokenize (render (tokenize source))).map lexeme = (tokenize source).map lexeme := by
  have htile : Tile [] source.toList (tokenize source) := tile_tokensFrom _ _ [] rfl
  obtain ⟨init, htokens, hinit⟩ := htile.eq_append_eof
  have hscans : ∀ l ∈ init.map lexeme, Scans l l.written.toList := by
    intro l hl
    obtain ⟨t, ht, rfl⟩ := List.mem_map.mp hl
    have hmem : t ∈ tokenize source := by simp [htokens, ht]
    obtain heof | ⟨spelling, rest, hspelled⟩ := htile.spelledBy t hmem
    · exact absurd heof (hinit t ht)
    · exact scans_written hspelled (h t hmem)
  rw [htokens, tokenize, toList_render]
  have hfound := tokensFrom_flatMap hscans Position.start [] (by simp)
  rw [List.nil_append] at hfound
  rw [hfound, List.map_append]
  rfl

/-- A name, a text, a keyword and a mark of two characters among comments and newlines. -/
theorem lexemes_tokenize_render_null :
    let source := "$a=null # rest\n\"x y\"::b"
    (∀ t ∈ tokenize source, t.lexeme.isLasting = true) ∧
      (tokenize (render (tokenize source))).map lexeme = (tokenize source).map lexeme := by
  have h : ∀ t ∈ tokenize "$a=null # rest\n\"x y\"::b", t.lexeme.isLasting = true := by
    have hall : (tokenize "$a=null # rest\n\"x y\"::b").all (·.lexeme.isLasting) = true := by
      decide +kernel
    exact List.all_eq_true.mp hall
  exact ⟨h, lexemes_tokenize_render _ h⟩

end Token

end RouteScript
