import RouteScript.Proofs.Syntax.Climbing
import RouteScript.Proofs.Syntax.LaysOut

/-!
# Layouts of expressions

Every reader of expressions reads the loosened forms of what it reads. The readers for what stands
inside are assumed to do so; for a list of arguments this gives that line ends around its commas and
a comma behind its last item change nothing, however deep the arguments themselves are nested.
-/

namespace RouteScript

def Filled {α : Type} (R : α → List Piece → Prop) (a : α) (ps : List Piece) : Prop :=
  R a ps ∧ lexemesOf ps ≠ []

open Parse Follow

/-! ## Sequences of statements -/

def Ended (stmt : Stmt) (ps : List Piece) : Prop :=
  ∃ p t, Filled Stmt.LaidOut stmt p ∧ Stretch isSeparator t ∧ ps = p ++ t

/-- One round of a loop that reads statements. Behind the last of them stands `close`. -/
def stmtRound (close : List Piece) (stmts : List Stmt) :
    Round (List Stmt) Block → List Piece → Prop
  | .done block, ps =>
    ∃ b, Stretch isSeparator b ∧ block = stmts.reverse ∧ ps = b ++ close
  | .more next, ps =>
    ∃ b stmt q, Stretch isSeparator b ∧ Ended stmt q ∧ next = stmt :: stmts ∧ ps = b ++ q

theorem Ended.ne_nil {stmt : Stmt} {ps : List Piece} (h : Ended stmt ps) : lexemesOf ps ≠ [] := by
  obtain ⟨p, t, ⟨-, hp⟩, -, rfl⟩ := h
  simp [hp]

theorem ne_nil_of_stmtRound {close ps : List Piece} {stmts next : List Stmt}
    (h : stmtRound close stmts (.more next) ps) : lexemesOf ps ≠ [] := by
  obtain ⟨b, stmt, q, -, hq, -, rfl⟩ := h
  simp [hq.ne_nil]

theorem Sequence.separated {stmts : Block} {t p : List Piece} (ht : Stretch isSeparator t)
    (h : Sequence Stmt.LaidOut stmts p) : Sequence Stmt.LaidOut stmts (t ++ p) := by
  cases h with
  | nil hb => exact .nil (ht.append hb)
  | cons hb hp hq =>
    rw [← List.append_assoc]
    exact .cons (ht.append hb) hp hq

/-- The rounds of a block lay out its statements one after the other. -/
theorem Sequence.of_runs {close ps : List Piece} {stmts block : List Stmt}
    (h : Runs (stmtRound close) stmts block ps) :
    ∃ later q, block = stmts.reverse ++ later ∧ Sequence Stmt.LaidOut later q ∧
      ps = q ++ close := by
  induction h with
  | done hround =>
    obtain ⟨b, hb, rfl, rfl⟩ := hround
    exact ⟨[], b, by simp, .nil hb, rfl⟩
  | more hround _ ih =>
    obtain ⟨b, stmt, _, hb, ⟨p, t, ⟨hp, -⟩, ht, rfl⟩, rfl, rfl⟩ := hround
    obtain ⟨later, q, rfl, hq, rfl⟩ := ih
    refine ⟨stmt :: later, b ++ (p ++ (t ++ q)), by simp, .cons hb hp (hq.separated ht), by simp⟩

namespace Grammar

/-- What stands inside a construct of the first grammar is read in its loosened forms by the
second. -/
structure Mirrors (g g' : Grammar) : Prop where
  expression (level : Level) : LaysOut anywhere same (fun _ => loose) (Filled Expr.LaidOut)
    (g.expression level) (g'.expression level)
  body : LaysOut anywhere same (fun _ => same) (Filled Stmt.LaidOut) g.body g'.body

variable {g g' : Grammar} {P : Lexeme → Prop}

/-! ## Blocks -/

theorem laysOut_terminator :
    LaysOut P same (fun _ => same) (fun _ => Stretch isSeparator) terminator terminator := by
  refine laysOut_peek And.left fun l _ => .ite (fun hl => ?_) fun hl => .ite (fun hend => ?_) ?_
  · have hne : l.isEof = false := by cases l <;> first | rfl | cases hl
    refine LaysOut.mono (laysOut_advance_last hne through_same_same) ?_
    rintro _ _ rfl
    exact stretch_one hl
  · exact LaysOut.pure id stretch_nil
  · exact fun _ => laysOut_unexpected

/-- A statement ends with a stretch of separators, if it needs to end with any. -/
theorem laysOut_finish {stmt : Stmt} :
    LaysOut P same (fun _ => same) (fun _ => Stretch isSeparator) (finish stmt) (finish stmt) := by
  refine .ite (fun _ => laysOut_terminator) fun _ => ?_
  refine laysOut_takeMark And.left through_same_same ?_ ?_
  · exact LaysOut.pure id (stretch_one rfl)
  · exact LaysOut.pure id stretch_nil

/-! ## Lists of expressions -/

def itemTail (close : Mark) (expected : String) (found : List Expr) :
    Parse (Round (List Expr) (List Expr)) := do
  skipNewlines
  if ← takeMark .comma then return .more found
  else if ← atMark close then return .more found
  else unexpected expected

def itemRound (g : Grammar) (close : Mark) (expected : String) (found : List Expr) :
    Parse (Round (List Expr) (List Expr)) := do
  skipNewlines
  if ← takeMark close then return .done found.reverse
  else
    let e ← g.expression .lowest
    itemTail close expected (e :: found)

/-- A list of items is read in rounds. -/
theorem items_eq (g : Grammar) (close : Mark) (expected : String) :
    g.items close expected = loop [] (g.itemRound close expected) := rfl

section Items

variable {close : Mark} {expected : String} {found : List Expr} {d n : Nat}
  {turn : Round (List Expr) (List Expr)}

theorem itemTail_eq_ok {s rest : Stream} (h : itemTail close expected found d s = .ok turn rest) :
    turn = .more found ∧
      ∃ m, s.lexemes = List.replicate m .newline ++ .mark .comma :: rest.lexemes ∨
        s.lexemes = List.replicate m .newline ++ rest.lexemes ∧
          front rest.lexemes = .mark close := by
  obtain ⟨_, after, hskip, hcomma⟩ := bind_eq_ok.mp h
  obtain ⟨m, hs, -⟩ := lexemes_of_skipNewlines hskip
  obtain ⟨comma, after', htake, hclose⟩ := bind_eq_ok.mp hcomma
  obtain ⟨rfl, hafter⟩ | ⟨rfl, rfl, -⟩ := lexemes_of_takeMark htake
  · cases hclose
    exact ⟨rfl, m, .inl (by rw [hs, hafter])⟩
  · rw [if_neg Bool.false_ne_true] at hclose
    change (if (after'.head.lexeme).isMark close then pure (.more found) else unexpected expected) d
      after' = .ok turn rest at hclose
    split at hclose
    next hmark =>
      cases hclose
      rw [Stream.head_lexeme] at hmark
      exact ⟨rfl, m, .inr ⟨hs, Lexeme.eq_mark_of_isMark hmark⟩⟩
    next => exact absurd hclose unexpected_ne_ok

/-- A round ends the list or takes in one item and what separates it from the next. -/
theorem itemRound_eq_ok {s rest : Stream}
    (h : g.itemRound close expected found d s = .ok turn rest) :
    (turn = .done found.reverse ∧
      ∃ n, s.lexemes = List.replicate n .newline ++ .mark close :: rest.lexemes) ∨
    ∃ n start e after, s.lexemes = List.replicate n .newline ++ start.lexemes ∧
      (front start.lexemes).isNewline = false ∧ (front start.lexemes).isMark close = false ∧
      g.expression .lowest d start = .ok e after ∧
      itemTail close expected (e :: found) d after = .ok turn rest := by
  obtain ⟨_, start, hskip, hclose⟩ := bind_eq_ok.mp h
  obtain ⟨n, hs, hstart⟩ := lexemes_of_skipNewlines hskip
  obtain ⟨closed, after, htake, hitem⟩ := bind_eq_ok.mp hclose
  obtain ⟨rfl, hafter⟩ | ⟨rfl, rfl, hmark⟩ := lexemes_of_takeMark htake
  · cases hitem
    exact .inl ⟨rfl, n, by rw [hs, hafter]⟩
  · rw [if_neg Bool.false_ne_true] at hitem
    obtain ⟨e, after', hread, htail⟩ := bind_eq_ok.mp hitem
    exact .inr ⟨n, _, e, after', hs, hstart, hmark, hread, htail⟩

variable {ls tail rest : List Lexeme} {e : Expr}

theorem reads_itemTail_comma :
    Reads (itemTail close expected found) d (List.replicate n .newline ++ [.mark .comma])
      (.more found) rest :=
  (reads_newlines rfl).bind (reads_takeMark.bind_one .pure)

theorem reads_itemTail_close (hclose : closes close) :
    Reads (itemTail close expected found) d (List.replicate n .newline) (.more found)
      (.mark close :: rest) := by
  have hcomma : (Lexeme.mark close).isMark .comma = false := by obtain rfl | rfl := hclose <;> rfl
  refine (reads_newlines rfl).bind_last ?_
  refine (reads_takeMark_of_not hcomma).bind_nil ?_
  exact (reads_atMark isMark_self).bind_nil .pure

theorem reads_itemRound_done :
    Reads (g.itemRound close expected found) d (List.replicate n .newline ++ [.mark close])
      (.done found.reverse) rest :=
  (reads_newlines rfl).bind (reads_takeMark.bind_one .pure)

theorem reads_itemRound (hne : ls ≠ []) (hnewline : (front ls).isNewline = false)
    (hclose : (front ls).isMark close = false)
    (he : Reads (g.expression .lowest) d ls e (tail ++ rest))
    (htail : Reads (itemTail close expected (e :: found)) d tail turn rest) :
    Reads (g.itemRound close expected found) d (List.replicate n .newline ++ (ls ++ tail)) turn
      rest := by
  have hfront : front ((ls ++ tail) ++ rest) = front ls := by
    rw [List.append_assoc, front_append_of_ne_nil hne]
  refine (reads_newlines (hfront ▸ hnewline)).bind ?_
  refine (reads_takeMark_of_not (hfront ▸ hclose)).bind_nil ?_
  exact he.bind htail

end Items

/-! ## Parameters -/

theorem eq_name_of_isName {l : Lexeme} (h : l.isName = true) : ∃ word, l = .name word := by
  cases l <;> simp_all [Lexeme.isName]

theorem laysOut_parameter :
    LaysOut P same (fun _ => any) (Filled Parameter.LaidOut) parameter parameter := by
  refine laysOut_peek And.left fun l _ => .ite (fun hl => ?_) fun _ => ?_
  · refine LaysOut.bind_map ((laysOut_expectName (M := same) through_same).front_mem.bind ?_)
    rintro word _ ⟨⟨hword⟩, hfront⟩
    obtain rfl := hfront (by simp)
    obtain ⟨name, rfl⟩ := eq_name_of_isName hl
    cases hword
    refine LaysOut.bind_return (LaysOut.mono laysOut_expectVariable ?_)
    rintro name p hname
    exact ⟨.typed hname, by simp⟩
  · refine LaysOut.bind_pure (LaysOut.bind_return (LaysOut.mono laysOut_expectVariable ?_))
    rintro name p ⟨hname⟩
    exact ⟨.plain (.mk hname), by simp⟩

/-- One round of the loop that reads parameters. Before every one but the first stands a comma. -/
def paramRound (found : List Parameter) :
    Round (List Parameter) (List Parameter) → List Piece → Prop
  | .done params, ps => ∃ n, params = found.reverse ∧ ps = [.gap n, .mark .rightParen]
  | .more next, ps => ∃ n param p, Filled Parameter.LaidOut param p ∧ next = param :: found ∧
    (found = [] ∧ ps = .gap n :: p ∨
      found ≠ [] ∧ ∃ m, ps = .gap n :: .mark .comma :: .gap m :: p)

theorem ne_nil_of_paramRound {found next : List Parameter} {ps : List Piece}
    (h : paramRound found (.more next) ps) : lexemesOf ps ≠ [] := by
  obtain ⟨n, param, p, ⟨-, hp⟩, -, ⟨-, rfl⟩ | ⟨-, m, rfl⟩⟩ := h
  · simp [hp]
  · simp

/-- Behind a parameter, the further ones continue its list. -/
theorem listed_of_runs {found params : List Parameter} {ps : List Piece}
    (h : Runs paramRound found params ps) (hfound : found ≠ []) :
    ∃ later, params = found.reverse ++ later ∧ ∀ {param p}, Parameter.LaidOut param p →
      ∃ q m, Listed Parameter.LaidOut (param :: later) q ∧
        p ++ ps = q ++ [.gap m, .mark .rightParen] := by
  induction h with
  | done hround =>
    obtain ⟨n, rfl, rfl⟩ := hround
    exact ⟨[], by simp, fun {_ p} hp => ⟨p, n, .one hp, rfl⟩⟩
  | more hround _ ih =>
    obtain ⟨n, param, p, ⟨hp, -⟩, rfl, ⟨rfl, -⟩ | ⟨-, m, rfl⟩⟩ := hround
    · exact absurd rfl hfound
    · obtain ⟨later, rfl, hlater⟩ := ih (List.cons_ne_nil _ _)
      obtain ⟨q, k, hq, hps⟩ := hlater hp
      refine ⟨param :: later, by simp, fun {_ p'} hp' => ?_⟩
      exact ⟨p' ++ .gap n :: .mark .comma :: .gap m :: q, k, .more n m hp' hq, by simp [hps]⟩

theorem allLaidOut_of_runs {params : List Parameter} {ps : List Piece}
    (h : Runs paramRound [] params ps) : Parameter.AllLaidOut params (.mark .leftParen :: ps) := by
  cases h with
  | done hround =>
    obtain ⟨n, rfl, rfl⟩ := hround
    exact .none n
  | more hround hlater =>
    obtain ⟨n, param, p, ⟨hp, -⟩, rfl, ⟨-, rfl⟩ | ⟨hne, -⟩⟩ := hround
    · obtain ⟨later, rfl, hlisted⟩ := listed_of_runs hlater (List.cons_ne_nil _ _)
      obtain ⟨q, m, hq, hps⟩ := hlisted hp
      rw [List.cons_append, hps]
      exact .some n m hq
    · exact absurd rfl hne

/-- Parameters are laid out between parentheses, with line breaks anywhere among them. -/
theorem laysOut_parameters :
    LaysOut P same (fun _ => any) Parameter.AllLaidOut parameters parameters := by
  refine laysOut_expectMark (through_same rfl) (LaysOut.mono (laysOut_loop (V := paramRound)
    (fun found => laysOut_gap fun n => ?_) ne_nil_of_paramRound) allLaidOut_of_runs)
  refine laysOut_takeMark_ite And.left (through_same rfl) (LaysOut.pure id ⟨n, rfl, rfl⟩) ?_
  refine .ite (fun hfound => ?_) fun hfound => ?_
  · refine LaysOut.bind_return (LaysOut.mono laysOut_parameter fun {param p} hp => ?_)
    exact ⟨n, param, p, hp, rfl, .inl ⟨List.isEmpty_iff.mp hfound, rfl⟩⟩
  · refine laysOut_expectMark (through_same rfl) (laysOut_gap fun m => ?_)
    refine LaysOut.bind_return (LaysOut.mono laysOut_parameter fun {param p} hp => ?_)
    exact ⟨n, param, p, hp, rfl, .inr ⟨fun h => hfound (List.isEmpty_iff.mpr h), m, rfl⟩⟩

/-! ## Maps -/

def nextKey (g : Grammar) (pairs : List (Expr × Expr)) :
    Parse (Round (Expr × List (Expr × Expr)) Expr) := do
  if ← takeMark .rightBrace then return .done (.map pairs.reverse)
  else
    let l ← peek
    if l.isEof then unexpected Mark.rightBrace.spelling
    else
      let next ← g.expression .lowest
      return .more (next.asKey l.isName, pairs)

def entryTail (g : Grammar) (pairs : List (Expr × Expr)) :
    Parse (Round (Expr × List (Expr × Expr)) Expr) := do
  skipNewlines
  if ← takeMark .comma then skipNewlines
  g.nextKey pairs

/-- One round of the loop that reads a map, from the colon behind a key to the next one. -/
def entryRound (g : Grammar) : Expr × List (Expr × Expr) →
    Parse (Round (Expr × List (Expr × Expr)) Expr)
  | (key, pairs) => do
    expectMark .colon
    skipNewlines
    let value ← g.expression .lowest
    g.entryTail ((key, value) :: pairs)

/-- The entries of a map are read in rounds. -/
theorem mapRest_eq (g : Grammar) (first : Expr) :
    g.mapRest first = loop (first, []) g.entryRound := rfl

/-- What `nextKey` reads: a closing brace or a key. -/
def keyTurn (pairs : List (Expr × Expr)) :
    Round (Expr × List (Expr × Expr)) Expr → List Piece → Prop
  | .done e, ps => e = .map pairs.reverse ∧ ps = [.mark .rightBrace]
  | .more (key, pairs'), ps => pairs' = pairs ∧ Filled Key key ps

/-- What `entryTail` reads: the end of the map, or what stands between two entries and a key. -/
def entryTurn (pairs : List (Expr × Expr)) :
    Round (Expr × List (Expr × Expr)) Expr → List Piece → Prop
  | .done e, ps => e = .map pairs.reverse ∧ ∃ m comma, ps = [.ending m comma, .mark .rightBrace]
  | .more (key, pairs'), ps => pairs' = pairs ∧ ∃ q, Filled Key key q ∧
    ((∃ m k, ps = .gap m :: .mark .comma :: .gap k :: q) ∨
      ∃ b, Stretch Lexeme.isNewline b ∧ ps = b ++ q)

def entryPieces : Expr × List (Expr × Expr) → Round (Expr × List (Expr × Expr)) Expr →
    List Piece → Prop
  | (key, pairs), turn, ps => ∃ n value p q, Expr.LaidOut value p ∧
    entryTurn ((key, value) :: pairs) turn q ∧ ps = .mark .colon :: .gap n :: (p ++ q)

/-- A key and the rest of its map are the entries of the map. -/
theorem entries_of_runs {state : Expr × List (Expr × Expr)} {e : Expr} {ps : List Piece}
    (h : Runs entryPieces state e ps) :
    ∃ later, e = .map (state.2.reverse ++ later) ∧ ∀ {k}, Key state.1 k →
      ∃ q m comma, Entries later (k ++ q) ∧ ps = q ++ [.ending m comma, .mark .rightBrace] := by
  induction h with
  | @done state _ _ hround =>
    obtain ⟨key, pairs⟩ := state
    obtain ⟨n, value, p, q, hp, ⟨rfl, m, comma, rfl⟩, rfl⟩ := hround
    refine ⟨[(key, value)], by simp, fun {k} hk => ?_⟩
    exact ⟨.mark .colon :: .gap n :: p, m, comma, .one n hk hp, by simp⟩
  | @more state next _ _ _ hround _ ih =>
    obtain ⟨key, pairs⟩ := state
    obtain ⟨key', pairs'⟩ := next
    obtain ⟨later, rfl, hlater⟩ := ih
    obtain ⟨n, value, p, q, hp, ⟨rfl, k', ⟨hkey, -⟩, hbetween⟩, rfl⟩ := hround
    obtain ⟨r, m, comma, hr, rfl⟩ := hlater hkey
    refine ⟨(key, value) :: later, by simp, fun {k} hk => ?_⟩
    obtain ⟨a, b, rfl⟩ | ⟨b, hb, rfl⟩ := hbetween
    · exact ⟨.mark .colon :: .gap n :: (p ++ .gap a :: .mark .comma :: .gap b :: (k' ++ r)), m,
        comma, .comma n a b hk hp hr, by simp⟩
    · exact ⟨.mark .colon :: .gap n :: (p ++ (b ++ (k' ++ r))), m, comma, .bare n hk hp hb hr,
        by simp⟩

section Maps

variable {pairs : List (Expr × Expr)} {turn : Round (Expr × List (Expr × Expr)) Expr} {d m k : Nat}
  {ls rest : List Lexeme}

theorem entryTail_eq_ok {s rest : Stream} (h : g.entryTail pairs d s = .ok turn rest) :
    ∃ m start, (front start.lexemes).isNewline = false ∧
      g.nextKey pairs d start = .ok turn rest ∧
      ((∃ k, s.lexemes = List.replicate m .newline ++
          .mark .comma :: (List.replicate k .newline ++ start.lexemes)) ∨
        s.lexemes = List.replicate m .newline ++ start.lexemes ∧
          (front start.lexemes).isMark .comma = false) := by
  obtain ⟨_, after, hskip, hcomma⟩ := bind_eq_ok.mp h
  obtain ⟨m, hs, hnewline⟩ := lexemes_of_skipNewlines hskip
  obtain ⟨comma, behind, htake, hnext⟩ := bind_eq_ok.mp hcomma
  obtain ⟨rfl, hafter⟩ | ⟨rfl, rfl, hmark⟩ := lexemes_of_takeMark htake
  · obtain ⟨_, start, hskip', hread⟩ := bind_eq_ok.mp hnext
    obtain ⟨k, hbehind, hstart⟩ := lexemes_of_skipNewlines hskip'
    exact ⟨m, start, hstart, hread, .inl ⟨k, by rw [hs, hafter, hbehind]⟩⟩
  · exact ⟨m, _, hnewline, hnext, .inr ⟨hs, hmark⟩⟩

theorem reads_entryTail (hnewline : (front (ls ++ rest)).isNewline = false)
    (hcomma : (front (ls ++ rest)).isMark .comma = false)
    (h : Reads (g.nextKey pairs) d ls turn rest) :
    Reads (g.entryTail pairs) d (List.replicate m .newline ++ ls) turn rest := by
  refine (reads_newlines hnewline).bind ?_
  exact (reads_takeMark_of_not hcomma).bind_nil h

theorem reads_entryTail_comma (hnewline : (front (ls ++ rest)).isNewline = false)
    (h : Reads (g.nextKey pairs) d ls turn rest) :
    Reads (g.entryTail pairs) d (List.replicate m .newline ++
      .mark .comma :: (List.replicate k .newline ++ ls)) turn rest := by
  refine (reads_newlines rfl).bind (reads_takeMark.bind_one ?_)
  exact (reads_newlines hnewline).bind h

/-- The end of a map is read in all its forms. -/
theorem reads_entryTail_ending {comma : Option Nat} {ps : List Piece}
    (h : Loosened [.ending m comma, .mark .rightBrace] ps) :
    Reads (g.entryTail pairs) d (lexemesOf ps) (.done (.map pairs.reverse)) rest := by
  have hdone : Reads (g.nextKey pairs) d [.mark .rightBrace] (.done (.map pairs.reverse)) rest :=
    reads_takeMark.bind_one .pure
  obtain ⟨m', hps⟩ | ⟨m', k, hps⟩ := h.of_ending <;> rw [hps]
  · exact reads_entryTail rfl rfl hdone
  · exact reads_entryTail_comma rfl hdone

end Maps

/-- A bare name in front is the key of an entry by its spelling. -/
theorem key_asKey {e : Expr} {p : List Piece} {l : Lexeme} (h : Filled Expr.LaidOut e p)
    (hl : lexemesOf p ≠ [] → front (lexemesOf p) = l) : Filled Key (e.asKey l.isName) p := by
  refine ⟨?_, h.2⟩
  obtain ⟨he, hne⟩ := h
  obtain rfl := hl hne
  cases e
  case name word =>
    cases hname : (front (lexemesOf p)).isName with
    | false => exact .expr he
    | true =>
      cases he with
      | name => exact .name word
      | dollar hword => cases hword; cases hname
      | echo | print => cases hname
      | parens hparens => cases hparens; cases hname
  all_goals exact .expr he

/-! ## Growing expressions -/

/-- A larger expression, of which `left` is the first part. -/
def Grows (left e : Expr) (ps : List Piece) : Prop :=
  (∀ {p}, Expr.LaidOut left p → Expr.LaidOut e (p ++ ps)) ∧ lexemesOf ps ≠ []

def growth (left : Expr) : Round Expr Expr → List Piece → Prop
  | .done e, ps => e = left ∧ ps = []
  | .more e, ps => Grows left e ps

/-- An expression that has grown in rounds is laid out with all that was added. -/
theorem laidOut_of_runs {left e : Expr} {p ps : List Piece} (h : Runs growth left e ps)
    (hp : left.LaidOut p) : e.LaidOut (p ++ ps) := by
  induction h generalizing p with
  | done hround =>
    obtain ⟨rfl, rfl⟩ := hround
    rwa [List.append_nil]
  | more hround _ ih =>
    rw [← List.append_assoc]
    exact ih (hround.1 hp)

theorem laysOut_access {left : Expr} (access : Access) :
    LaysOut P same (fun _ => loose) (fun e ps => Grows left e (.mark access.mark :: ps))
      (do return .member left (← expectName "member name") access)
      (do return .member left (← expectName "member name") access) := by
  refine LaysOut.bind_return ((laysOut_expectName through_same).mono fun hq => ?_)
  exact ⟨fun hp => .member access hp hq, by simp⟩

theorem laysOut_step {left : Expr} (op : StepOp) (fault : Diagnostic) :
    LaysOut P loose (fun _ => loose) (fun e ps => Grows left e (.mark op.mark :: ps))
      (if left.isTarget then pure (.step left op) else fail fault)
      (if left.isTarget then pure (.step left op) else fail fault) :=
  .ite (fun _ => LaysOut.pure id ⟨fun hp => .step op hp, by simp⟩) fun _ => laysOut_fail

namespace Mirrors

variable (hg : Mirrors g g')

include hg

theorem laysOut_statement :
    LaysOut P same (fun _ => same) Ended g.statement g'.statement := by
  refine hg.body.at_any.bind fun stmt p hp => ?_
  refine laysOut_finish.bind fun _ t ht => LaysOut.pure id ?_
  exact ⟨p, t, hp, ht, by simp⟩

theorem laysOut_blockRest {first : List Stmt} :
    LaysOut P same (fun _ => any)
      (fun block ps => ∃ later q, block = first ++ later ∧ Sequence Stmt.LaidOut later q ∧
        ps = q ++ [.mark .rightBrace])
      (g.blockRest first) (g'.blockRest first) := by
  refine LaysOut.mono (laysOut_loop (V := stmtRound [.mark .rightBrace]) (fun stmts => ?_)
    ne_nil_of_stmtRound) fun hruns => by simpa using Sequence.of_runs hruns
  refine laysOut_skipSeparators.bind fun _ b hb => ?_
  refine laysOut_peek And.left fun l _ => .ite (fun hl => ?_) fun hl => .ite ?_ fun _ => ?_
  · obtain rfl := Lexeme.eq_mark_of_isMark hl
    exact laysOut_advance rfl (through_same rfl) (LaysOut.pure id ⟨b, hb, rfl, rfl⟩)
  · exact fun _ => laysOut_unexpected
  · refine LaysOut.bind_return (LaysOut.mono hg.laysOut_statement fun {stmt q} hq => ?_)
    exact ⟨b, stmt, q, hb, hq, rfl, rfl⟩

/-- A block is laid out between braces. -/
theorem laysOut_block : LaysOut P same (fun _ => any) Braced g.block g'.block := by
  refine laysOut_skipNewlines.bind fun _ b hb => ?_
  refine laysOut_expectMark (through_same rfl) (LaysOut.mono hg.laysOut_blockRest ?_)
  rintro block _ ⟨later, q, rfl, hq, rfl⟩
  exact .mk hb hq

/-! ## Parentheses and lists -/

theorem laysOut_parenthesized :
    LaysOut P ahead (fun _ => any) Parenthesized g.parenthesized g'.parenthesized := by
  refine laysOut_expectMark (through_ahead_of_opens rfl) (laysOut_gap fun n => ?_)
  refine (hg.expression .lowest).bind fun e p hp => laysOut_gap_closing fun m => ?_
  exact laysOut_expectMark (through_closing rfl) (LaysOut.pure id (.mk n m hp.1))

section Items

variable {close : Mark} {expected : String} {found : List Expr} {d : Nat}

/-- A loosened item is read before a comma and before the closing mark. -/
theorem reads_item (hclose : closes close) {start after : Stream} {e : Expr}
    (hread : g.expression .lowest d start = .ok e after)
    (hnewline : (front start.lexemes).isNewline = false)
    (hmark : (front start.lexemes).isMark close = false)
    (hquiet : (front after.lexemes).isQuiet = true) :
    ∃ p, Filled Expr.LaidOut e p ∧ start.lexemes = lexemesOf p ++ after.lexemes ∧
      ∀ {p'}, Loosened p p' → ∀ n m rest',
        Reads (g'.itemRound close expected found) d
          (List.replicate n .newline ++ (lexemesOf p' ++ (List.replicate m .newline ++
            [.mark .comma]))) (.more (e :: found)) rest' ∧
        Reads (g'.itemRound close expected found) d
          (List.replicate n .newline ++ (lexemesOf p' ++ List.replicate m .newline))
          (.more (e :: found)) (.mark close :: rest') := by
  obtain ⟨p, hp, hstart, hloosened⟩ := hg.expression .lowest trivial hread
  refine ⟨p, hp, hstart, fun {p'} hp' n m rest' => ?_⟩
  have hne := hp'.ne_nil hp.2
  have hitem {tail rest' : List Lexeme} {turn : Round (List Expr) (List Expr)}
      (hend : (front (tail ++ rest')).isQuiet = true)
      (htail : Reads (itemTail close expected (e :: found)) d tail turn rest') :
      Reads (g'.itemRound close expected found) d
        (List.replicate n .newline ++ (lexemesOf p' ++ tail)) turn rest' := by
    obtain ⟨hsame, he⟩ := hloosened p' _ hp' (.inr ⟨hquiet, hend⟩)
    have hfront : front (lexemesOf p') = front start.lexemes := by
      rw [← hsame.1, front_append_of_ne_nil hne]
    exact reads_itemRound hne (hfront ▸ hnewline) (hfront ▸ hmark) he htail
  constructor
  · refine hitem ?_ reads_itemTail_comma
    rw [List.append_assoc]
    exact isQuiet_replicate rfl
  · refine hitem (isQuiet_replicate ?_) (reads_itemTail_close hclose)
    obtain rfl | rfl := hclose <;> rfl

/-- What a list of expressions is read from, when some of them are found: the layout of the further
ones, of which the second grammar reads the loosened forms. -/
def ItemsLaidOut (g' : Grammar) (close : Mark) (expected : String) (d : Nat) (found es : List Expr)
    (ls rest : List Lexeme) : Prop :=
  ∃ later ps, es = found.reverse ++ later ∧ Enclosed Expr.LaidOut close later ps ∧
    ls = lexemesOf ps ++ rest ∧ ∀ ps' rest', Loosened ps ps' →
      Iterates (g'.itemRound close expected) d found (lexemesOf ps') es rest'

omit hg in
theorem itemsLaidOut_nil {n : Nat} {rest : List Lexeme} :
    ItemsLaidOut g' close expected d found found.reverse
      (List.replicate n .newline ++ .mark close :: rest) rest := by
  refine ⟨[], [.gap n, .mark close], by simp, .none n, by simp, fun ps' rest' hloose => ?_⟩
  obtain ⟨n', qs, -, rfl, hqs⟩ := hloose.of_gap_cons
  rw [hqs.of_fixed]
  exact .done reads_itemRound_done

variable {start behind : Stream} {e : Expr} {n m : Nat}

/-- Behind a comma the list goes on. -/
theorem itemsLaidOut_comma (hclose : closes close) {es : List Expr} {ls rest : List Lexeme}
    (hread : g.expression .lowest d start = .ok e behind)
    (hnewline : (front start.lexemes).isNewline = false)
    (hmark : (front start.lexemes).isMark close = false)
    (hbehind : behind.lexemes = List.replicate m .newline ++ .mark .comma :: ls)
    (hlater : ItemsLaidOut g' close expected d (e :: found) es ls rest) :
    ItemsLaidOut g' close expected d found es (List.replicate n .newline ++ start.lexemes)
      rest := by
  have hend : (front behind.lexemes).isQuiet = true := hbehind ▸ isQuiet_replicate rfl
  obtain ⟨p, hp, hstart, hitem⟩ := hg.reads_item hclose hread hnewline hmark hend
  obtain ⟨later, ps, rfl, hps, rfl, hiterates⟩ := hlater
  obtain ⟨qs, hqs, hlexemes, hloosened⟩ := hps.cons n m hp.1
  refine ⟨e :: later, .gap n :: (p ++ qs), by simp, hqs, ?_, fun ps' rest' hloose => ?_⟩
  · simp [hstart, hbehind, hlexemes]
  obtain ⟨n', _, -, rfl, hcut⟩ := hloose.of_gap_cons
  obtain ⟨p', qs', rfl, hp', hqs'⟩ := hcut.of_append
  obtain ⟨m', ps', hps', hlexemes'⟩ := hloosened qs' hqs'
  have hmore := Iterates.more (hitem hp' n' m' _).1 (by simp) (hiterates ps' rest' hps')
  simpa [hlexemes'] using hmore

/-- Without a comma the closing mark is next, and a loosened form may have one. -/
theorem itemsLaidOut_last (hclose : closes close) {rest : List Lexeme}
    (hread : g.expression .lowest d start = .ok e behind)
    (hnewline : (front start.lexemes).isNewline = false)
    (hmark : (front start.lexemes).isMark close = false)
    (hbehind : behind.lexemes = List.replicate m .newline ++ .mark close :: rest) :
    ItemsLaidOut g' close expected d found (e :: found).reverse
      (List.replicate n .newline ++ start.lexemes) rest := by
  have hend : (front behind.lexemes).isQuiet = true := by
    rw [hbehind]
    exact isQuiet_replicate (by obtain rfl | rfl := hclose <;> rfl)
  obtain ⟨p, hp, hstart, hitem⟩ := hg.reads_item hclose hread hnewline hmark hend
  refine ⟨[e], .gap n :: (p ++ [.ending m none, .mark close]), by simp,
    .some n m none (.one hp.1), by simp [hstart, hbehind], fun ps' rest' hloose => ?_⟩
  obtain ⟨n', _, -, rfl, hcut⟩ := hloose.of_gap_cons
  obtain ⟨p', qs, rfl, hp', hqs⟩ := hcut.of_append
  have hne := hp'.ne_nil hp.2
  have hlast (k : Nat) : Iterates (g'.itemRound close expected) d (e :: found)
      (List.replicate k .newline ++ [.mark close]) (e :: found).reverse rest' :=
    .done reads_itemRound_done
  obtain ⟨m', hlexemes⟩ | ⟨m', k, hlexemes⟩ := hqs.of_ending
  · have hmore := Iterates.more (hitem hp' n' m' rest').2 (by simp [hne]) (hlast 0)
    simpa [hlexemes] using hmore
  · have hmore := Iterates.more (hitem hp' n' m' _).1 (by simp) (hlast k)
    simpa [hlexemes] using hmore

omit hg in
/-- With the closing mark in front, the loop is in its last round. -/
theorem rounds_of_close {budget : Nat} {s rest : Stream} {es : List Expr}
    (h : rounds (g.itemRound close expected) budget found d s = .ok es rest)
    (hfront : front s.lexemes = .mark close) :
    es = found.reverse ∧ s.lexemes = .mark close :: rest.lexemes := by
  have hs : s.lexemes = .mark close :: (s.drop 1).lexemes :=
    s.tail_eq_drop ▸ lexemes_eq_cons hfront rfl
  have hdone : g.itemRound close expected found d s = .ok (.done found.reverse) (s.drop 1) :=
    reads_itemRound_done (n := 0) s hs
  cases budget with
  | zero => cases h
  | succ budget =>
    obtain ⟨turn, last, hlast, hresult⟩ := bind_eq_ok.mp h
    rw [hdone] at hlast
    cases hlast
    obtain ⟨rfl, rfl⟩ : found.reverse = es ∧ s.drop 1 = rest := by simpa using hresult
    exact ⟨rfl, hs⟩

/-- Items that are read in rounds are laid out with their separators. -/
theorem itemsLaidOut_of_rounds (hclose : closes close) {budget : Nat} {s rest : Stream}
    {es : List Expr} (h : rounds (g.itemRound close expected) budget found d s = .ok es rest) :
    ItemsLaidOut g' close expected d found es s.lexemes rest.lexemes := by
  induction budget generalizing found s with
  | zero => cases h
  | succ budget ih =>
    obtain ⟨turn, after, hround, hlater⟩ := bind_eq_ok.mp h
    obtain ⟨rfl, n, hs⟩ | ⟨n, start, e, behind, hs, hnewline, hmark, hread, htail⟩ :=
      itemRound_eq_ok hround
    · obtain ⟨rfl, rfl⟩ : found.reverse = es ∧ after = rest := by simpa using hlater
      exact hs ▸ itemsLaidOut_nil
    obtain ⟨rfl, m, hbehind | ⟨hbehind, hfront⟩⟩ := itemTail_eq_ok htail
    · exact hs ▸ hg.itemsLaidOut_comma hclose hread hnewline hmark hbehind (ih hlater)
    · obtain ⟨rfl, hafter⟩ := rounds_of_close hlater hfront
      exact hs ▸ hg.itemsLaidOut_last hclose hread hnewline hmark (hafter ▸ hbehind)

/-- A list of items is laid out up to its closing mark. -/
theorem laysOut_items (hclose : closes close) :
    LaysOut P any (fun _ => any) (Enclosed Expr.LaidOut close) (g.items close expected)
      (g'.items close expected) := by
  rw [items_eq, items_eq]
  intro d s es rest _ h
  rw [loop_apply] at h
  obtain ⟨later, ps, rfl, hps, hs, hiterates⟩ := hg.itemsLaidOut_of_rounds hclose h
  refine ⟨ps, hps, hs, fun ps' rest' hloose _ => ⟨trivial, ?_⟩⟩
  exact (hiterates ps' rest' hloose).reads

end Items

theorem laysOut_arguments :
    LaysOut P same (fun _ => any) (fun es ps => ∃ q, Enclosed Expr.LaidOut .rightParen es q ∧
      ps = .mark .leftParen :: q) g.arguments g'.arguments :=
  laysOut_expectMark (through_same rfl)
    (LaysOut.mono (hg.laysOut_items (.inl rfl)) fun h => ⟨_, h, rfl⟩)

/-! ## Braces -/

theorem laysOut_nextKey {pairs : List (Expr × Expr)} :
    LaysOut P same (Round.follow same fun _ => any) (keyTurn pairs) (g.nextKey pairs)
      (g'.nextKey pairs) := by
  refine laysOut_takeMark_ite And.left (through_same rfl) (LaysOut.pure id ⟨rfl, rfl⟩) ?_
  refine laysOut_peek And.left fun l _ => .ite (fun _ => laysOut_unexpected) fun _ => ?_
  have hkey := ((hg.expression .lowest).at_any (P := (· = l))).front_mem.strengthen same.loose
  exact LaysOut.bind_return (hkey.mono fun hp => ⟨rfl, key_asKey hp.1 hp.2⟩)

theorem laysOut_entryTail {pairs : List (Expr × Expr)} :
    LaysOut P loose (Round.follow same fun _ => any) (entryTurn pairs) (g.entryTail pairs)
      (g'.entryTail pairs) := by
  intro d s turn rest _ h
  obtain ⟨m, start, hnewline, hread, hbetween⟩ := entryTail_eq_ok h
  obtain ⟨q, hq, hstart, hloosened⟩ := hg.laysOut_nextKey (P := anywhere) trivial hread
  cases turn with
  | done e =>
    obtain ⟨rfl, rfl⟩ := hq
    obtain ⟨comma, hs⟩ : ∃ comma, s.lexemes =
        lexemesOf [.ending m comma, .mark .rightBrace] ++ rest.lexemes := by
      obtain ⟨k, hs⟩ | ⟨hs, -⟩ := hbetween
      · exact ⟨some k, by simp [hs, hstart]⟩
      · exact ⟨none, by simp [hs, hstart]⟩
    refine ⟨_, ⟨rfl, m, comma, rfl⟩, hs, fun ps' rest' hloose _ => ⟨.inr ⟨?_, ?_⟩, ?_⟩⟩
    · rw [hs]
      exact (Loosened.refl _).isQuiet_of_ending rfl
    · exact hloose.isQuiet_of_ending rfl
    · exact reads_entryTail_ending hloose
  | more next =>
    obtain ⟨key, pairs'⟩ := next
    obtain ⟨rfl, hkey⟩ := hq
    obtain ⟨k, hs⟩ | ⟨hs, hcomma⟩ := hbetween
    · refine ⟨.gap m :: .mark .comma :: .gap k :: q, ⟨rfl, q, hkey, .inl ⟨m, k, rfl⟩⟩,
        by simp [hs, hstart], fun ps' rest' hloose hpost => ?_⟩
      obtain ⟨m', _, -, rfl, hcomma⟩ := hloose.of_gap_cons
      obtain ⟨_, rfl, hgap⟩ := hcomma.of_fixed_cons
      obtain ⟨k', q', -, rfl, hq'⟩ := hgap.of_gap_cons
      obtain ⟨hsame, hreads⟩ := hloosened q' rest' hq' hpost
      constructor
      · rw [hs]
        simp only [lexemesOf_cons, List.append_assoc]
        exact .inr ⟨isQuiet_replicate rfl, isQuiet_replicate rfl⟩
      · exact reads_entryTail_comma (hsame.1 ▸ hnewline) hreads
    · -- Line ends between two entries without a comma stay as they are.
      refine ⟨(List.replicate m Lexeme.newline).map .fixed ++ q,
        ⟨rfl, q, hkey, .inr ⟨_, stretch_newlines m, rfl⟩⟩, ?_, fun ps' rest' hloose hpost => ?_⟩
      · rw [hs, hstart, lexemesOf_append, lexemesOf_map_fixed, List.append_assoc]
      obtain ⟨b, q', rfl, hb, hq'⟩ := hloose.of_append
      obtain ⟨hsame, hreads⟩ := hloosened q' rest' hq' hpost
      rw [hb.of_map_fixed, lexemesOf_append, lexemesOf_map_fixed, List.append_assoc, hs]
      refine ⟨(same_append hsame).loose, ?_⟩
      exact reads_entryTail (hsame.1 ▸ hnewline) (hsame.1 ▸ hcomma) hreads

/-- A map is laid out entry by entry, after its first key. -/
theorem laysOut_mapRest {first : Expr} :
    LaysOut P same (fun _ => any) (fun e ps => ∀ {k}, Key first k →
      ∃ pairs q m comma, e = .map pairs ∧ Entries pairs (k ++ q) ∧
        ps = q ++ [.ending m comma, .mark .rightBrace]) (g.mapRest first) (g'.mapRest first) := by
  rw [mapRest_eq, mapRest_eq]
  refine LaysOut.mono (laysOut_loop (V := entryPieces) (fun state => ?_) ?_) ?_
  · obtain ⟨key, pairs⟩ := state
    refine laysOut_expectMark (through_same rfl) (laysOut_gap fun n => ?_)
    refine (hg.expression .lowest).bind fun value p hp => LaysOut.mono hg.laysOut_entryTail ?_
    exact fun hq => ⟨n, value, p, _, hp.1, hq, rfl⟩
  · rintro ⟨key, pairs⟩ next p ⟨n, value, p, q, -, -, rfl⟩
    simp
  · intro e ps hruns k hk
    obtain ⟨later, rfl, hlater⟩ := entries_of_runs hruns
    obtain ⟨q, m, comma, hq, rfl⟩ := hlater hk
    exact ⟨later, q, m, comma, by simp, hq, rfl⟩

/-- What follows a brace decides between a map and a block. -/
theorem laysOut_brace : LaysOut P any (fun _ => any)
    (fun e ps => e.LaidOut (.mark .leftBrace :: ps)) g.brace g'.brace := by
  refine laysOut_gap fun n => ?_
  refine laysOut_takeMark_ite And.left (through_same rfl) (LaysOut.pure id (.emptyMap n)) ?_
  refine laysOut_peek And.left fun l _ => ?_
  refine (hg.body.at_any (P := (· = l))).front_mem.bind fun first p hfirst => ?_
  have hblock : LaysOut anywhere same (fun _ => any)
      (fun e q => e.LaidOut (.mark .leftBrace :: .gap n :: (p ++ q)))
      (do
        finish first
        return Expr.block (← g.blockRest [first]))
      (do
        finish first
        return Expr.block (← g'.blockRest [first])) := by
    refine laysOut_finish.bind fun _ t ht => LaysOut.bind_return ?_
    refine LaysOut.mono hg.laysOut_blockRest ?_
    rintro block _ ⟨later, q, rfl, hq, rfl⟩
    have h := Expr.LaidOut.block n (.cons stretch_nil hfirst.1.1 (hq.separated ht))
    simpa using h
  refine laysOut_atMark (fun h => congrArg _ h.1) ?_ ?_
  · cases first
    case expr e =>
      obtain ⟨⟨hstmt, hne⟩, hfront⟩ := hfirst
      cases hstmt with
      | expr he =>
        refine LaysOut.mono hg.laysOut_mapRest fun hrest => ?_
        obtain ⟨pairs, q, m, comma, rfl, hq, rfl⟩ := hrest (key_asKey ⟨he, hne⟩ hfront).1
        simpa using Expr.LaidOut.map n m comma hq
    all_goals exact hblock.at_any
  · cases first <;> exact hblock

theorem laysOut_branch : LaysOut P same (fun _ => loose) Branch g.branch g'.branch := by
  refine laysOut_skipNewlines.bind fun _ b hb => ?_
  refine laysOut_takeMark_ite And.left (through_same rfl)
    (hg.laysOut_brace.bind fun e p he => ?_) ?_
  · cases e
    case block stmts => exact LaysOut.pure (fun _ => trivial) (by simpa using Branch.block hb he)
    all_goals exact LaysOut.pure (fun _ => trivial) (by simpa using Branch.expr hb he)
  · exact LaysOut.bind_return ((hg.expression .lowest).mono fun hp => .expr hb hp.1)

theorem laysOut_choice {condition : Expr} : LaysOut P same (fun _ => loose)
    (fun e ps => Grows condition e (.mark .question :: ps)) (g.choice condition)
    (g'.choice condition) := by
  refine laysOut_atMark_ite And.left (LaysOut.bind_pure ?_) ?_
  · refine laysOut_expectMark (through_same rfl) (LaysOut.bind_return (hg.laysOut_branch.mono ?_))
    exact fun hr => ⟨fun hp => .otherwise hp hr, by simp⟩
  · refine hg.laysOut_branch.strengthen same.loose |>.bind fun yes q hq => ?_
    refine laysOut_skipNewlines.bind fun _ b hb => LaysOut.bind_pure ?_
    refine laysOut_expectMark (through_same rfl) (LaysOut.bind_return (hg.laysOut_branch.mono ?_))
    exact fun hr => ⟨fun hp => .choice hp hq hb hr, by simp⟩

/-- Parameters and a body, of which something is made. -/
theorem laysOut_callable {α : Type} {f : List Parameter → Block → α} {W : α → List Piece → Prop}
    (h : ∀ {params body p q}, Parameter.AllLaidOut params p → Braced body q →
      W (f params body) (p ++ q)) :
    LaysOut P same (fun _ => any) W
      (do
        let params ← parameters
        let body ← g.block
        return f params body)
      (do
        let params ← parameters
        let body ← g'.block
        return f params body) := by
  refine laysOut_parameters.bind fun params p hp => LaysOut.bind_return ?_
  exact hg.laysOut_block.behind_any.mono fun hq => h hp hq

theorem laysOut_functionLiteral : LaysOut P same (fun _ => any)
    (fun e ps => e.LaidOut (.keyword .functionKw :: ps)) g.functionLiteral g'.functionLiteral := by
  refine laysOut_peek And.left fun l _ => .ite (fun hl => ?_) fun _ => LaysOut.bind_pure ?_
  · refine (laysOut_expectName (M := same) through_same).front_mem.bind ?_
    rintro word _ ⟨⟨hword⟩, hfront⟩
    obtain rfl := hfront (by simp)
    obtain ⟨name, rfl⟩ := eq_name_of_isName hl
    cases hword
    exact hg.laysOut_callable fun hp hq => by simpa using Expr.LaidOut.function hp hq
  · exact hg.laysOut_callable fun hp hq => .anonymous hp hq

theorem laysOut_creation : LaysOut P loose (fun _ => loose)
    (fun e ps => e.LaidOut (.keyword .newKw :: ps)) g.creation g'.creation := by
  refine (laysOut_expectName (M := loose) fun _ => through_loose).bind fun name p hp => ?_
  refine laysOut_atMark (fun h => h.isMark_eq rfl) ?_ ?_
  · refine (hg.laysOut_arguments.weaken same.loose).bind ?_
    rintro args _ ⟨q, hq, rfl⟩
    exact LaysOut.pure (fun _ => trivial) (by simpa using Expr.LaidOut.createWith hp hq)
  · exact LaysOut.pure id (by simpa using Expr.LaidOut.create hp)

/-! ## Operands -/

theorem laysOut_keywordOperand {k : Keyword} {t : Token} : LaysOut (· = .keyword k) ahead
    (fun _ => loose) (Filled Expr.LaidOut) (g.keywordOperand k t) (g'.keywordOperand k t) := by
  refine laysOut_advance rfl (through_ahead rfl) ?_
  have hsolid {e : Expr} {q : List Piece} (h : e.LaidOut (.keyword k :: q)) :
      Filled Expr.LaidOut e (.keyword k :: q) := ⟨h, by simp⟩
  cases k
  case trueKw => exact LaysOut.pure id (hsolid .true)
  case falseKw => exact LaysOut.pure id (hsolid .false)
  case nilKw => exact LaysOut.pure id (hsolid .nil)
  case thisKw => exact LaysOut.pure id (hsolid .this)
  case echoKw => exact LaysOut.pure id (hsolid .echo)
  case printKw => exact LaysOut.pure id (hsolid .print)
  case newKw => exact hg.laysOut_creation.mono hsolid
  case functionKw =>
    exact (hg.laysOut_functionLiteral.weaken same.loose).self_ending.mono hsolid
  case issetKw =>
    refine LaysOut.bind_return ((hg.laysOut_arguments.weaken same.loose).self_ending.mono ?_)
    rintro args _ ⟨q, hq, rfl⟩
    exact hsolid (.isset hq)
  case emptyKw =>
    refine laysOut_expectMark through_loose ((hg.expression .lowest).bind fun e p hp => ?_)
    refine laysOut_expectMark through_loose (LaysOut.pure id (hsolid ?_))
    exact .empty hp.1
  all_goals exact laysOut_fail

theorem laysOut_markOperand {m : Mark} {t : Token} : LaysOut (· = .mark m) ahead
    (fun _ => loose) (Filled Expr.LaidOut) (g.markOperand m t) (g'.markOperand m t) := by
  cases m
  case leftParen =>
    refine hg.laysOut_parenthesized.self_ending.mono fun hp => ⟨.parens hp, ?_⟩
    cases hp
    simp
  case dollar =>
    refine laysOut_advance rfl (through_ahead rfl) (laysOut_atKeyword loose.isKeyword_eq ?_ ?_)
    · exact laysOut_advance rfl through_loose (LaysOut.pure id ⟨.dollarThis, by simp⟩)
    · refine LaysOut.bind_return ((laysOut_expectName fun _ => through_loose).mono ?_)
      rintro word _ ⟨hword⟩
      exact ⟨.dollar (.mk hword), by simp⟩
  case bang =>
    refine laysOut_advance rfl (through_ahead rfl) (LaysOut.bind_return ?_)
    exact ((hg.expression .unary).weaken same.loose).mono fun hp => ⟨.unary .not hp.1, by simp⟩
  case minus =>
    refine laysOut_advance rfl (through_ahead rfl) (LaysOut.bind_return ?_)
    exact ((hg.expression .unary).weaken same.loose).mono fun hp => ⟨.unary .negate hp.1, by simp⟩
  case leftBracket =>
    refine laysOut_advance rfl (through_ahead_of_opens rfl) (LaysOut.bind_return ?_)
    refine (hg.laysOut_items (.inr rfl)).self_ending.mono ?_
    exact fun hp => ⟨.array hp, by simp⟩
  case leftBrace =>
    refine laysOut_advance rfl (through_ahead_of_opens rfl) ?_
    exact hg.laysOut_brace.self_ending.mono fun hp => ⟨hp, by simp⟩
  case semicolon | rightBrace => exact laysOut_fail
  all_goals exact laysOut_advance_fail

/-- Every operand is laid out, one case for each kind of lexeme it starts with. -/
theorem laysOut_operand :
    LaysOut P ahead (fun _ => loose) (Filled Expr.LaidOut) g.operand g'.operand := by
  refine laysOut_token (fun h => h.1.1) ?_ fun t => ?_
  · rintro ⟨_, place⟩ ⟨l, place'⟩ rfl d s e rest h
    cases l
    case keyword k => cases k <;> first | exact h | cases h
    case mark m => cases m <;> first | exact h | cases h
    case illegal | newline | eof => cases h
    all_goals exact h
  · have hliteral {l : Lexeme} {e : Expr} (hl : l.isEof = false) (hnewline : l.isNewline = false)
        (he : e.LaidOut [.fixed l]) : LaysOut (· = l) ahead (fun _ => loose) (Filled Expr.LaidOut)
        (do advance; return e) (do advance; return e) :=
      laysOut_advance hl (through_ahead hnewline) (LaysOut.pure id ⟨he, by simp⟩)
    obtain ⟨l, place⟩ := t
    cases l
    case integer n => exact hliteral rfl rfl (.int n)
    case float x => exact hliteral rfl rfl (.float x)
    case text s => exact hliteral rfl rfl (.text s)
    case name word => exact hliteral rfl rfl (.name word)
    case keyword k => exact hg.laysOut_keywordOperand
    case mark m => exact hg.laysOut_markOperand
    case illegal => exact laysOut_advance_fail
    all_goals exact laysOut_fail

/-! ## Growing expressions -/

theorem laysOut_binary {left : Expr} (op : BinaryOp) :
    LaysOut P same (fun _ => loose) (fun e ps => Grows left e (.mark op.mark :: ps))
      (do skipNewlines; return .binary left op (← g.expression op.level))
      (do skipNewlines; return .binary left op (← g'.expression op.level)) := by
  refine laysOut_skipNewlines.bind fun _ b hb => LaysOut.bind_return ?_
  exact (hg.expression op.level).mono fun hq => ⟨fun hp => .binary hp hb hq.1, by simp⟩

theorem laysOut_index {left : Expr} :
    LaysOut P any (fun _ => loose) (fun e ps => Grows left e (.mark .leftBracket :: ps))
      (do
        skipNewlines
        let key ← if ← atMark .rightBracket then pure none else some <$> g.expression .lowest
        skipNewlines
        expectMark .rightBracket
        return .index left key)
      (do
        skipNewlines
        let key ← if ← atMark .rightBracket then pure none else some <$> g'.expression .lowest
        skipNewlines
        expectMark .rightBracket
        return .index left key) := by
  refine laysOut_gap fun n => laysOut_atMark_ite And.left (LaysOut.bind_pure ?_) ?_
  · refine laysOut_skipNewlines.front_mem.bind ?_
    rintro _ _ ⟨⟨ls, hls, rfl⟩, hfront⟩
    -- The closing mark is in front, so there are no further line ends.
    obtain rfl : ls = [] := by
      cases ls with
      | nil => rfl
      | cons l ls =>
        obtain rfl : l = .mark .rightBracket := by simpa using hfront
        cases hls _ List.mem_cons_self
    refine laysOut_expectMark (through_same rfl) (LaysOut.pure id ⟨fun hp => ?_, by simp⟩)
    exact .behindLast n hp
  · refine LaysOut.bind_map ((hg.expression .lowest).bind fun key q hq => ?_)
    refine laysOut_gap_closing fun m => ?_
    refine laysOut_expectMark (through_closing rfl) (LaysOut.pure id ?_)
    exact ⟨fun hp => .index n m hp hq.1, by simp⟩

/-- Every extension of an operand is laid out as growth. -/
theorem laysOut_extend {left : Expr} :
    LaysOut P same (fun _ => loose) (Grows left) (g.extend left) (g'.extend left) := by
  refine laysOut_token And.left ?_ fun t => ?_
  · rintro ⟨_, place⟩ ⟨l, place'⟩ rfl d s e rest h
    cases l
    case mark m =>
      cases m
      case assign | increment | decrement =>
        cases hleft : left.isTarget with
        | true => simpa [hleft] using h
        | false =>
          simp only [hleft] at h
          cases h
      all_goals first | exact h | cases h
    all_goals cases h
  · obtain ⟨l, place⟩ := t
    cases l
    case mark m =>
      cases m
      case leftParen =>
        refine laysOut_revisit (LaysOut.bind_return (hg.laysOut_arguments.self_ending.mono ?_))
        rintro args _ ⟨q, hq, rfl⟩
        exact ⟨fun hp => .call hp hq, by simp⟩
      case assign =>
        refine laysOut_advance rfl (through_same rfl) (.ite (fun _ =>
          laysOut_skipNewlines.bind fun _ b hb => LaysOut.bind_return ?_) fun _ => laysOut_fail)
        exact (hg.expression .lowest).mono fun hq => ⟨fun hp => .assign hp hb hq.1, by simp⟩
      case question => exact laysOut_advance rfl (through_same rfl) hg.laysOut_choice
      case leftBracket => exact laysOut_advance rfl (through_same rfl) hg.laysOut_index
      case dot => exact laysOut_advance rfl (through_same rfl) (laysOut_access .dot)
      case arrow => exact laysOut_advance rfl (through_same rfl) (laysOut_access .arrow)
      case doubleColon => exact laysOut_advance rfl (through_same rfl) (laysOut_access .static)
      case increment => exact laysOut_advance rfl (through_same rfl) (laysOut_step .increment _)
      case decrement => exact laysOut_advance rfl (through_same rfl) (laysOut_step .decrement _)
      all_goals first
        | exact laysOut_advance_fail
        | exact laysOut_advance rfl (through_same rfl) (hg.laysOut_binary _)
    all_goals exact laysOut_fail

theorem laysOut_grow {level : Level} {left : Expr} :
    LaysOut P loose (Round.follow loose fun _ => loose) (growth left) (g.grow level left)
      (g'.grow level left) := by
  have hlevel {r r' : List Lexeme} (h : loose r r') : (front r').level = (front r).level :=
    h.congr Lexeme.level (b := .lowest) fun l hl => by
      obtain rfl | rfl | rfl | rfl | rfl := Lexeme.eq_of_isQuiet hl <;> rfl
  refine laysOut_peek_congr (fun h => by rw [hlevel h]) fun l _ => .ite (fun _ => ?_) fun _ => ?_
  · exact LaysOut.bind_return (hg.laysOut_extend.weaken same.loose)
  · exact LaysOut.pure id ⟨rfl, rfl⟩

/-- Climbing lays out the operand and all that grows on it. -/
theorem laysOut_climb {level : Level} :
    LaysOut P ahead (fun _ => loose) (Filled Expr.LaidOut) (g.climb level) (g'.climb level) := by
  rw [climb_eq, climb_eq]
  refine hg.laysOut_operand.bind fun first p hp => ?_
  refine (laysOut_loop (V := growth) (fun left => hg.laysOut_grow) And.right).mono fun hruns => ?_
  exact ⟨laidOut_of_runs hruns hp.1, by simp [hp.2]⟩

/-- Every expression that is read is laid out. -/
theorem laysOut_expressionOf {level : Level} : LaysOut P ahead (fun _ => loose)
    (Filled Expr.LaidOut) (g.expressionOf level) (g'.expressionOf level) := by
  refine laysOut_depth fun depth => .ite (fun _ => ?_) fun _ => hg.laysOut_climb.nested
  exact laysOut_of_ne_ok fun _ _ _ _ h => by cases h

end Mirrors

end Grammar

end RouteScript
