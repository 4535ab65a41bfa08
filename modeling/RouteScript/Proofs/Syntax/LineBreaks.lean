import RouteScript.Proofs.Syntax.Recovery
import RouteScript.Proofs.Syntax.StatementLayout

/-!
# Line ends inside of parentheses

A program that is read without a diagnostic can be cut into pieces with a gap at every place inside
of parentheses, brackets and maps where line ends may stand, and however the gaps are filled, the
same program is read. So it is with a comma behind the last argument of a call or the last item of
an array or a map.

A loosened text is longer, so its readers allow deeper nesting. This changes nothing: what is read
with a smaller budget is read with a larger one.
-/

namespace RouteScript

open Parse Follow

/-! ## Budgets -/

theorem Grammar.expression_within_succ (n : Nat) (level : Level) :
    (within (n + 1)).expression level = (within n).expressionOf level := by
  change expressionWithin (n + 1) level = _
  rw [expressionWithin]
  rfl

theorem Grammar.body_within_succ (n : Nat) : (within (n + 1)).body = (within n).bodyOf := by
  rw [within, bodyWithin]
  rfl

/-- Readers with a larger budget read the loosened forms of all that is read with a smaller one. -/
theorem Grammar.mirrors_within {n n' : Nat} (h : n ≤ n') : Mirrors (within n) (within n') := by
  induction n generalizing n' with
  | zero =>
    refine ⟨fun level => laysOut_of_ne_ok fun d s a rest hread => ?_,
      laysOut_of_ne_ok fun d s a rest hread => ?_⟩
    · change expressionWithin 0 level d s = .ok a rest at hread
      rw [expressionWithin] at hread
      cases hread
    · rw [within, bodyWithin] at hread
      cases hread
  | succ n ih =>
    obtain ⟨m, rfl⟩ : ∃ m, n' = m + 1 := ⟨n' - 1, by omega⟩
    have hg : Mirrors (within n) (within m) := ih (by omega)
    constructor
    · intro level
      rw [expression_within_succ, expression_within_succ]
      exact hg.laysOut_expressionOf.weaken ahead.same
    · rw [body_within_succ, body_within_succ]
      exact hg.laysOut_bodyOf

/-- Each layout is a loosened form of itself, so the second reader reads what the first one does. -/
theorem Parse.LaysOut.reads {α : Type} {pre : Follow} {post : α → Follow}
    {W : α → List Piece → Prop} {m m' : Parse α} (h : LaysOut anywhere pre post W m m')
    (hpost : ∀ a r, post a r r) {d : Nat} {ls rest : List Lexeme} {a : α}
    (hreads : Reads m d ls a rest) : Reads m' d ls a rest := by
  intro s hs
  have hrest : (s.drop ls.length).lexemes = rest := by simp [hs]
  obtain ⟨ps, -, hps, hread⟩ := h trivial (hreads s hs)
  obtain rfl : lexemesOf ps = ls := by
    rw [hrest, hs] at hps
    exact (List.append_cancel_right hps).symm
  rw [hrest] at hread
  exact (hread ps rest (.refl ps) (hpost a rest)).2 s hs

namespace Stream

/-! ## One statement -/

/-- The statement in front of a stream is in front of every longer one that starts with a loosened
form of it. -/
theorem statement_loosened {s rest : Stream} {stmt : Stmt} (h : s.statement = .ok stmt rest) :
    ∃ ps, Ended stmt ps ∧ s.lexemes = lexemesOf ps ++ rest.lexemes ∧
      ∀ ps' rest', Loosened ps ps' → same rest.lexemes rest' →
        same s.lexemes (lexemesOf ps' ++ rest') ∧
          ∀ s' : Stream, s.length ≤ s'.length → s'.lexemes = lexemesOf ps' ++ rest' →
            s'.statement = .ok stmt (s'.drop (lexemesOf ps').length) := by
  have hsmall := (Grammar.mirrors_within (Nat.le_refl (s.length + 1))).laysOut_statement
    (P := anywhere)
  obtain ⟨ps, hended, hs, hps⟩ := hsmall trivial h
  refine ⟨ps, hended, hs, fun ps' rest' hloose hsame => ?_⟩
  obtain ⟨hfollow, hreads⟩ := hps ps' rest' hloose hsame
  refine ⟨hfollow, fun s' hle hs' => ?_⟩
  have hlarge := (Grammar.mirrors_within (Nat.succ_le_succ hle)).laysOut_statement
    (P := anywhere)
  exact hlarge.reads (fun _ _ => ⟨rfl, rfl⟩) hreads s' hs'

/-! ## Turns -/

theorem lexemes_skipped (s : Stream) : s.skipped.lexemes = s.lexemes.dropWhile isSeparator :=
  s.lexemes_dropWhile isSeparator

/-- Separators before a statement are passed over. -/
theorem lexemes_skipped_append {s : Stream} {b ls : List Lexeme} (hs : s.lexemes = b ++ ls)
    (hb : ∀ l ∈ b, isSeparator l = true) (hls : isSeparator (front ls) = false) :
    s.skipped.lexemes = ls := by
  rw [lexemes_skipped, hs, List.dropWhile_append_of_pos hb]
  cases ls with
  | nil => rfl
  | cons l ls => simp [show isSeparator l = false from hls]

/-- What comes before the next statement are separators. -/
theorem exists_separators (s : Stream) : ∃ b : List Lexeme, (∀ l ∈ b, isSeparator l = true) ∧
    s.lexemes = b ++ s.skipped.lexemes ∧ isSeparator (front s.skipped.lexemes) = false := by
  have hskip : skipSeparators 0 s = .ok () s.skipped := rfl
  obtain ⟨b, hb, hs, hstop⟩ := lexemes_of_skipWhile hskip
  exact ⟨b, hb, hs, hstop rfl⟩

theorem read_of_skipped_eq_nil {s : Stream} (h : s.skipped.lexemes = []) : s.read = .none := by
  have hturn : s.turn? = none := by
    rw [turn?_eq_none_iff, ← length_lexemes, h]
    rfl
  rw [read_eq, hturn]

/-- A statement that is read comes before those of the rest. -/
theorem read_of_statement {s rest : Stream} {stmt : Stmt} (hne : s.skipped.lexemes ≠ [])
    (h : s.skipped.statement = .ok stmt rest) :
    s.read = ⟨stmt :: rest.read.statements, rest.read.diagnostics⟩ := by
  have hsome : s.skipped.tokens.isEmpty = false := by
    simpa [lexemes] using hne
  have hturn : s.turn? = some (⟨[stmt], []⟩, rest) := by
    rw [turn?, hsome, h]
    rfl
  rw [read_eq, hturn]
  rfl

/-- Without diagnostics every turn takes a statement. -/
theorem exists_statement {s : Stream} (h : s.read.diagnostics = []) (hne : s.skipped.lexemes ≠ []) :
    ∃ stmt rest, s.skipped.statement = .ok stmt rest := by
  cases hresult : s.skipped.statement with
  | ok stmt rest => exact ⟨stmt, rest, rfl⟩
  | error fault rest =>
    have hsome : s.skipped.tokens.isEmpty = false := by
      simpa [lexemes] using hne
    have hturn : s.turn? = some (⟨[], [fault]⟩, rest.resume) := by
      rw [turn?, hsome, hresult]
      rfl
    rw [read_eq, hturn] at h
    cases h

/-! ## Programs -/

/-- The stream holds the pieces of a program, and every stream that holds a loosened form of them is
read as the same program. -/
structure Loosenable (s : Stream) (ps : List Piece) : Prop where
  laidOut : Sequence Stmt.LaidOut s.read.statements ps
  lexemes_eq : s.lexemes = lexemesOf ps
  same {ps' : List Piece} : Loosened ps ps' → same s.lexemes (lexemesOf ps')
  read_eq {ps' : List Piece} {s' : Stream} : Loosened ps ps' → s'.lexemes = lexemesOf ps' →
    s'.read = s.read

/-- Separators alone have nothing to loosen. -/
theorem loosenable_of_skipped_eq_nil {s : Stream} (h : s.skipped.lexemes = []) :
    ∃ ps, s.Loosenable ps := by
  obtain ⟨b, hb, hs, -⟩ := s.exists_separators
  rw [h, List.append_nil] at hs
  refine ⟨b.map .fixed, ?_, by simpa using hs, fun hloose => ?_, fun hloose hs' => ?_⟩
  · rw [read_of_skipped_eq_nil h]
    exact .nil ⟨b, hb, rfl⟩
  · rw [hloose.of_map_fixed, lexemesOf_map_fixed, hs]
    exact ⟨rfl, rfl⟩
  · rw [hloose.of_map_fixed, lexemesOf_map_fixed] at hs'
    rw [read_of_skipped_eq_nil h, read_of_skipped_eq_nil]
    exact lexemes_skipped_append (hs'.trans (List.append_nil b).symm) hb rfl

/-- A turn that takes a statement, and what is read behind it. -/
theorem loosenable_of_statement {s rest : Stream} {stmt : Stmt} {q : List Piece}
    (hne : s.skipped.lexemes ≠ []) (hstmt : s.skipped.statement = .ok stmt rest)
    (hq : rest.Loosenable q) : ∃ ps, s.Loosenable ps := by
  obtain ⟨b, hb, hs, hstop⟩ := s.exists_separators
  obtain ⟨p, hp, hskipped, hturn⟩ := statement_loosened hstmt
  have hread := read_of_statement hne hstmt
  have hcut {ps' : List Piece} (hloose : Loosened (b.map .fixed ++ (p ++ q)) ps') :
      ∃ p' q', Loosened p p' ∧ Loosened q q' ∧
        lexemesOf ps' = b ++ (lexemesOf p' ++ lexemesOf q') := by
    obtain ⟨b', r, rfl, hb', hr⟩ := hloose.of_append
    obtain ⟨p', q', rfl, hp', hq'⟩ := hr.of_append
    exact ⟨p', q', hp', hq', by simp [hb'.of_map_fixed]⟩
  refine ⟨b.map .fixed ++ (p ++ q), ?_, ?_, fun hloose => ?_, fun {_ s'} hloose hs' => ?_⟩
  · obtain ⟨p, t, ⟨hp, -⟩, ht, rfl⟩ := hp
    rw [hread, List.append_assoc]
    exact .cons ⟨b, hb, rfl⟩ hp (hq.laidOut.separated ht)
  · simp [hs, hskipped, hq.lexemes_eq]
  · obtain ⟨p', q', hp', hq', hps⟩ := hcut hloose
    rw [hs, hps]
    exact same_append (hturn p' _ hp' (hq.same hq')).1
  · obtain ⟨p', q', hp', hq', hps⟩ := hcut hloose
    obtain ⟨hsame, hreads⟩ := hturn p' _ hp' (hq.same hq')
    have hskipped' : s'.skipped.lexemes = lexemesOf p' ++ lexemesOf q' :=
      lexemes_skipped_append (hs'.trans hps) hb (hsame.1 ▸ hstop)
    have hlength : s.skipped.length ≤ s'.skipped.length := by
      have hple := hp'.length_le
      have hqle := hq'.length_le
      rw [← length_lexemes, ← length_lexemes, hskipped, hskipped', hq.lexemes_eq, List.length_append,
        List.length_append]
      omega
    have hne' : s'.skipped.lexemes ≠ [] := by
      rw [hskipped']
      simp [hp'.ne_nil hp.ne_nil]
    have hlater : (s'.skipped.drop (lexemesOf p').length).read = rest.read :=
      hq.read_eq hq' (by simp [hskipped'])
    rw [read_of_statement hne' (hreads _ hlength hskipped'), hlater, hread]

/-- What is read without a fault can be loosened. -/
theorem exists_loosenable {s : Stream} (h : s.read.diagnostics = []) : ∃ ps, s.Loosenable ps := by
  induction hn : s.length using Nat.strongRecOn generalizing s with
  | ind n ih =>
    by_cases hnil : s.skipped.lexemes = []
    · exact loosenable_of_skipped_eq_nil hnil
    · obtain ⟨stmt, rest, hstmt⟩ := exists_statement h hnil
      have hlater : rest.read.diagnostics = [] := by
        simpa [read_of_statement hnil hstmt] using h
      have hlength : rest.length < s.length := by
        have hfits := s.skipped.fits_statement
        rw [hstmt] at hfits
        exact Nat.lt_of_lt_of_le hfits.2 s.isRest_skipped.length_le
      obtain ⟨q, hq⟩ := ih rest.length (hn ▸ hlength) hlater rfl
      exact loosenable_of_statement hnil hstmt hq

/-- Line ends inside of parentheses, brackets and maps change nothing, and neither does a comma
behind a last item. -/
theorem read_eq_of_loosened {tokens : List Token} (h : (ofTokens tokens).read.diagnostics = []) :
    ∃ ps, Sequence Stmt.LaidOut (ofTokens tokens).read.statements ps ∧
      (ofTokens tokens).lexemes = lexemesOf ps ∧
      ∀ ps', Loosened ps ps' → ∀ tokens', (ofTokens tokens').lexemes = lexemesOf ps' →
        (ofTokens tokens').read = (ofTokens tokens).read := by
  obtain ⟨ps, hps⟩ := exists_loosenable h
  exact ⟨ps, hps.laidOut, hps.lexemes_eq, fun _ hloose _ hs' => hps.read_eq hloose hs'⟩

/-- A call with an array among its arguments. -/
theorem read_eq_of_loosened_call :
    let place : Position := ⟨0, 1, 1⟩
    let tokens : List Token :=
      [⟨.name "f", place⟩, ⟨.mark .leftParen, place⟩, ⟨.name "x", place⟩, ⟨.mark .comma, place⟩,
        ⟨.mark .leftBracket, place⟩, ⟨.name "y", place⟩, ⟨.mark .rightBracket, place⟩,
        ⟨.mark .rightParen, place⟩]
    (ofTokens tokens).read.diagnostics = [] ∧
      ∃ ps, Sequence Stmt.LaidOut (ofTokens tokens).read.statements ps ∧
        (ofTokens tokens).lexemes = lexemesOf ps ∧
        ∀ ps', Loosened ps ps' → ∀ tokens', (ofTokens tokens').lexemes = lexemesOf ps' →
          (ofTokens tokens').read = (ofTokens tokens).read :=
  ⟨rfl, read_eq_of_loosened rfl⟩

/-- Line ends around an argument and a comma behind it. -/
example :
    let place : Position := ⟨0, 1, 1⟩
    (ofTokens [⟨.name "f", place⟩, ⟨.mark .leftParen, place⟩, ⟨.newline, place⟩, ⟨.name "x", place⟩,
      ⟨.newline, place⟩, ⟨.mark .comma, place⟩, ⟨.newline, place⟩, ⟨.mark .rightParen, place⟩]).read =
    ⟨[.expr (.call (.name "f") [.name "x"])], []⟩ := rfl

end Stream

end RouteScript
