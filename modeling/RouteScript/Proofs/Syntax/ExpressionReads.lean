import RouteScript.Proofs.Syntax.Written

/-!
# What the readers of expressions read

One statement for each construct: if the grammar reads what stands inside, then the reader of the
construct reads the whole. What stands inside comes with two assurances, `Takes` for expressions and
`TakesStmt` for statements.
-/

namespace RouteScript

open Parse

/-- Lexemes that an expression can start with wherever one is wanted: they neither end a list or a
statement nor open a block, and are no names. -/
def Lexeme.startsOperand : Lexeme → Bool
  | .integer _ | .float _ | .text _ => true
  | .keyword k =>
    match k with
    | .trueKw | .falseKw | .nilKw | .thisKw | .newKw | .issetKw | .emptyKw => true
    | _ => false
  | .mark m =>
    match m with
    | .leftParen | .leftBracket | .dollar | .bang | .minus => true
    | _ => false
  | _ => false

theorem ne_nil_of_startsOperand {ls : List Lexeme} (h : (front ls).startsOperand = true) :
    ls ≠ [] := by
  rintro rfl
  exact absurd h (by decide)

theorem Lexeme.isNewline_of_startsOperand {l : Lexeme} (h : l.startsOperand = true) :
    l.isNewline = false := by
  cases l <;> simp_all [Lexeme.startsOperand, Lexeme.isNewline]

def Lexeme.startsStatement (l : Lexeme) : Bool :=
  !(isSeparator l || l.isMark .rightBrace || l.isEof || l.isKeyword .caseKw ||
    l.isKeyword .defaultKw)

def Parameter.isTyped (p : Parameter) : Bool :=
  p.typeName.all fun word => (Keyword.ofWord? word).isNone

theorem Expr.asKey_false (e : Expr) : e.asKey false = e := by
  cases e <;> rfl

namespace Grammar

/-- At depth `d` the grammar takes `ls` for the expression `e` wherever nothing behind them binds
it. -/
structure Takes (g : Grammar) (d : Nat) (ls : List Lexeme) (e : Expr) : Prop where
  starts : (front ls).startsOperand = true
  reads : ∀ rest, (front rest).level = .lowest → Reads (g.expression .lowest) d ls e rest
  body : ∀ rest, (front rest).level = .lowest → Reads g.body d ls (.expr e) rest

namespace Takes

variable {g : Grammar} {d : Nat} {ls : List Lexeme} {e : Expr}

/-- What is taken as an expression is not empty. -/
theorem ne_nil (h : g.Takes d ls e) : ls ≠ [] := ne_nil_of_startsOperand h.starts

theorem front_append (h : g.Takes d ls e) (rest : List Lexeme) : front (ls ++ rest) = front ls :=
  front_append_of_ne_nil h.ne_nil rest

theorem isNewline (h : g.Takes d ls e) (rest : List Lexeme) :
    (front (ls ++ rest)).isNewline = false := by
  rw [h.front_append]
  exact Lexeme.isNewline_of_startsOperand h.starts

/-- What is taken as an expression starts with no mark that starts no operand. -/
theorem isMark (h : g.Takes d ls e) {m : Mark} (hm : (Lexeme.mark m).startsOperand = false)
    (rest : List Lexeme) : (front (ls ++ rest)).isMark m = false := by
  rw [h.front_append]
  have := h.starts
  cases hl : front ls <;> simp_all [Lexeme.isMark]
  rintro rfl
  simp_all

theorem isName (h : g.Takes d ls e) (rest : List Lexeme) :
    (front (ls ++ rest)).isName = false := by
  rw [h.front_append]
  have := h.starts
  cases hl : front ls <;> simp_all [Lexeme.startsOperand, Lexeme.isName]

theorem isEof (h : g.Takes d ls e) (rest : List Lexeme) :
    (front (ls ++ rest)).isEof = false := by
  rw [h.front_append]
  have := h.starts
  cases hl : front ls <;> simp_all [Lexeme.startsOperand, Lexeme.isEof]

end Takes

variable {g : Grammar} {d : Nat} {ls rest : List Lexeme} {e left : Expr}

theorem reads_parenthesized (hn : (front (ls ++ .mark .rightParen :: rest)).isNewline = false)
    (h : Reads (g.expression .lowest) d ls e (.mark .rightParen :: rest)) :
    Reads g.parenthesized d (parens ls) e rest := by
  refine reads_expectMark.bind_one ?_
  refine (reads_skipNewlines (by simpa using hn)).bind_nil ?_
  refine h.bind ?_
  refine (reads_skipNewlines rfl).bind_nil ?_
  exact reads_expectMark.bind_one .pure

/-- An expression in parentheses is read where parentheses are asked for. -/
theorem Takes.parenthesized (h : g.Takes d ls e) : Reads g.parenthesized d (parens ls) e rest :=
  reads_parenthesized (h.isNewline _) (h.reads _ rfl)

/-- Marks that end a list of expressions. -/
def closes (m : Mark) : Prop := m = .rightParen ∨ m = .rightBracket

/-- Expressions with commas between them, up to and with the mark that closes their list. -/
theorem reads_items {close : Mark} {expected : String} (hc : closes close)
    {w : Expr → List Lexeme} (es : List Expr) (h : ∀ e ∈ es, g.Takes d (w e) e) :
    Reads (g.items close expected) d (commas (es.map w) ++ [.mark close]) es rest := by
  have hlevel : (Lexeme.mark close).level = .lowest := by obtain rfl | rfl := hc <;> rfl
  have hstart : (Lexeme.mark close).startsOperand = false := by obtain rfl | rfl := hc <;> rfl
  have hcomma : (Lexeme.mark close).isMark .comma = false := by obtain rfl | rfl := hc <;> rfl
  refine Iterates.reads ?_
  change Iterates _ d [] _ (([] : List Expr).reverse ++ es) rest
  generalize ([] : List Expr) = found
  induction es generalizing found with
  | nil =>
    rw [List.append_nil]
    refine Iterates.done ?_
    refine (reads_skipNewlines rfl).bind_nil ?_
    exact reads_takeMark.bind_one .pure
  | cons e es ih =>
    have he := h e (by simp)
    have hes := ih (fun e' he' => h e' (by simp [he'])) (e :: found)
    rw [List.reverse_cons, List.append_assoc, List.singleton_append] at hes
    cases es with
    | nil =>
      refine Iterates.more ?_ he.ne_nil hes
      refine (reads_skipNewlines (he.isNewline _)).bind_nil ?_
      refine (reads_takeMark_of_not (he.isMark hstart _)).bind_nil ?_
      rw [← List.append_nil (w e)]
      refine (he.reads _ (by exact hlevel)).bind ?_
      refine (reads_skipNewlines rfl).bind_nil ?_
      refine (reads_takeMark_of_not hcomma).bind_nil ?_
      exact (reads_atMark isMark_self).bind_nil .pure
    | cons e' es =>
      rw [List.map_cons, List.map_cons, commas_cons_cons, List.append_assoc]
      refine Iterates.more ?_ (by simp) hes
      refine (reads_skipNewlines ?_).bind_nil ?_
      · rw [List.append_assoc]
        exact he.isNewline _
      refine (reads_takeMark_of_not ?_).bind_nil ?_
      · rw [List.append_assoc]
        exact he.isMark hstart _
      refine (he.reads _ rfl).bind ?_
      refine (reads_skipNewlines rfl).bind_nil ?_
      exact reads_takeMark.bind_one .pure

/-- Arguments between parentheses are read back. -/
theorem reads_arguments {w : Expr → List Lexeme} {es : List Expr}
    (h : ∀ e ∈ es, g.Takes d (w e) e) :
    Reads g.arguments d (parens (commas (es.map w))) es rest :=
  reads_expectMark.bind_one (reads_items (.inl rfl) es h)

/-! ## Operands -/

theorem reads_operand_int {n : Int64} : Reads g.operand d [.integer n] (.int n) rest := by
  refine reads_token_bind fun t ht => ?_
  rw [ht]
  exact reads_advance.bind_one .pure

theorem reads_operand_float {x : Float} : Reads g.operand d [.float x] (.float x) rest := by
  refine reads_token_bind fun t ht => ?_
  rw [ht]
  exact reads_advance.bind_one .pure

theorem reads_operand_text {s : String} : Reads g.operand d [.text s] (.text s) rest := by
  refine reads_token_bind fun t ht => ?_
  rw [ht]
  exact reads_advance.bind_one .pure

/-- A keyword decides on the operand it starts. -/
theorem reads_operand_keyword {k : Keyword}
    (h : ∀ t, Reads (g.keywordOperand k t) d (.keyword k :: ls) e rest) :
    Reads g.operand d (.keyword k :: ls) e rest := by
  refine reads_token_bind fun t ht => ?_
  rw [ht]
  exact h t

theorem reads_operand_bool {b : Bool} :
    Reads g.operand d [.keyword (if b then .trueKw else .falseKw)] (.bool b) rest := by
  cases b <;> exact reads_operand_keyword fun t => reads_advance.bind_one .pure

theorem reads_operand_nil : Reads g.operand d [.keyword .nilKw] .nil rest :=
  reads_operand_keyword fun _ => reads_advance.bind_one .pure

theorem reads_operand_this : Reads g.operand d [.keyword .thisKw] .this rest :=
  reads_operand_keyword fun _ => reads_advance.bind_one .pure

theorem reads_operand_create {w : Expr → List Lexeme} {es : List Expr} {l : Lexeme} {name : String}
    (hl : l.word? = some name) (h : ∀ e ∈ es, g.Takes d (w e) e) :
    Reads g.operand d (.keyword .newKw :: l :: parens (commas (es.map w))) (.create name es)
      rest := by
  refine reads_operand_keyword fun _ => ?_
  refine reads_advance.bind_one ?_
  refine (reads_expectName hl).bind_one ?_
  refine (reads_atMark rfl).bind_nil ?_
  exact (reads_arguments h).bind_last .pure

theorem reads_operand_isset {w : Expr → List Lexeme} {es : List Expr}
    (h : ∀ e ∈ es, g.Takes d (w e) e) :
    Reads g.operand d (.keyword .issetKw :: parens (commas (es.map w))) (.isset es) rest := by
  refine reads_operand_keyword fun _ => ?_
  refine reads_advance.bind_one ?_
  exact (reads_arguments h).bind_last .pure

theorem reads_operand_empty (h : g.Takes d ls e) :
    Reads g.operand d (.keyword .emptyKw :: parens ls) (.empty e) rest := by
  refine reads_operand_keyword fun _ => ?_
  refine reads_advance.bind_one ?_
  refine reads_expectMark.bind_one ?_
  refine (h.reads _ rfl).bind ?_
  exact reads_expectMark.bind_one .pure

theorem reads_operand_mark {m : Mark}
    (h : ∀ t, Reads (g.markOperand m t) d (.mark m :: ls) e rest) :
    Reads g.operand d (.mark m :: ls) e rest := by
  refine reads_token_bind fun t ht => ?_
  rw [ht]
  exact h t

theorem reads_operand_parens (h : Reads g.parenthesized d (parens ls) e rest) :
    Reads g.operand d (parens ls) e rest :=
  reads_operand_mark fun _ => h

/-- A dollar sign before a word makes it a variable, even if it is a keyword. -/
theorem reads_operand_variable {l : Lexeme} {word : String} (hl : l.word? = some word)
    (hthis : l.isKeyword .thisKw = false) :
    Reads g.operand d [.mark .dollar, l] (.name word) rest := by
  refine reads_operand_mark fun _ => ?_
  refine reads_advance.bind_one ?_
  refine (reads_atKeyword_of_not hthis).bind_nil ?_
  exact (reads_expectName hl).bind_last .pure

/-- A prefix operator takes in an operand of its own level. -/
theorem reads_operand_unary {op : UnaryOp} (h : Reads (g.expression .unary) d ls e rest) :
    Reads g.operand d (.mark op.mark :: ls) (.unary op e) rest := by
  cases op <;> exact reads_operand_mark fun _ => reads_advance.bind_one (h.bind_last .pure)

/-- A list in brackets is read back. -/
theorem reads_operand_array {w : Expr → List Lexeme} {es : List Expr}
    (h : ∀ e ∈ es, g.Takes d (w e) e) :
    Reads g.operand d (.mark .leftBracket :: (commas (es.map w) ++ [.mark .rightBracket]))
      (.array es) rest := by
  refine reads_operand_mark fun _ => ?_
  refine reads_advance.bind_one ?_
  exact (reads_items (.inr rfl) es h).bind_last .pure

/-! ## What extends an operand -/

/-- Parentheses after an operand are a call. -/
theorem reads_extend_call {w : Expr → List Lexeme} {es : List Expr}
    (h : ∀ e ∈ es, g.Takes d (w e) e) :
    Reads (g.extend left) d (parens (commas (es.map w))) (.call left es) rest := by
  refine reads_token_bind fun t ht => ?_
  rw [ht]
  exact (reads_arguments h).bind_last .pure

theorem reads_extend_member {access : Access} {l : Lexeme} {name : String}
    (hl : l.word? = some name) :
    Reads (g.extend left) d [.mark access.mark, l] (.member left name access) rest := by
  refine reads_token_bind fun t ht => ?_
  rw [ht]
  cases access <;> exact reads_advance.bind_one ((reads_expectName hl).bind_last .pure)

/-- Empty brackets stand for the place after the last element. -/
theorem reads_extend_append :
    Reads (g.extend left) d [.mark .leftBracket, .mark .rightBracket] (.index left none) rest := by
  refine reads_token_bind fun t ht => ?_
  rw [ht]
  refine reads_advance.bind_one ?_
  refine (reads_skipNewlines rfl).bind_nil ?_
  refine (reads_atMark rfl).bind_nil ?_
  refine Reads.pure.bind_nil ?_
  refine (reads_skipNewlines rfl).bind_nil ?_
  exact reads_expectMark.bind_one .pure

theorem reads_extend_index (h : g.Takes d ls e) :
    Reads (g.extend left) d (.mark .leftBracket :: (ls ++ [.mark .rightBracket]))
      (.index left (some e)) rest := by
  refine reads_token_bind fun t ht => ?_
  rw [ht]
  refine reads_advance.bind_one ?_
  refine (reads_skipNewlines (by simpa using h.isNewline _)).bind_nil ?_
  refine (reads_atMark_of_not (by simpa using h.isMark rfl _)).bind_nil ?_
  refine ((h.reads _ rfl).map _).bind ?_
  refine (reads_skipNewlines rfl).bind_nil ?_
  exact reads_expectMark.bind_one .pure

/-- An assignment takes in all that follows at the lowest level. -/
theorem reads_extend_assign (hleft : left.isTarget = true) (h : g.Takes d ls e)
    (hrest : (front rest).level = .lowest) :
    Reads (g.extend left) d (.mark .assign :: ls) (.assign left e) rest := by
  refine reads_token_bind fun t ht => ?_
  rw [ht]
  refine reads_advance.bind_one ?_
  dsimp only
  rw [if_pos hleft]
  refine (reads_skipNewlines (h.isNewline _)).bind_nil ?_
  exact (h.reads _ hrest).bind_last .pure

theorem reads_extend_step {op : StepOp} (hleft : left.isTarget = true) :
    Reads (g.extend left) d [.mark op.mark] (.step left op) rest := by
  refine reads_token_bind fun t ht => ?_
  rw [ht]
  cases op <;> exact reads_advance.bind_one (by simpa [hleft, StepOp.mark] using Reads.pure)

/-- An operator takes in a right operand of its level. -/
theorem reads_extend_binary {op : BinaryOp} (hn : (front (ls ++ rest)).isNewline = false)
    (h : Reads (g.expression op.level) d ls e rest) :
    Reads (g.extend left) d (.mark op.mark :: ls) (.binary left op e) rest := by
  refine reads_token_bind fun t ht => ?_
  rw [ht]
  cases op <;>
    exact reads_advance.bind_one ((reads_skipNewlines hn).bind_nil (h.bind_last .pure))

/-! ## Blocks and maps -/

/-- At depth `d` the grammar takes `ls` for the statement `stmt` before a semicolon. -/
structure TakesStmt (g : Grammar) (d : Nat) (ls : List Lexeme) (stmt : Stmt) : Prop where
  starts : (front ls).startsStatement = true
  reads : ∀ rest, Reads g.body d ls stmt (.mark .semicolon :: rest)

namespace TakesStmt

variable {stmt : Stmt}

theorem ne_nil (h : g.TakesStmt d ls stmt) : ls ≠ [] := by
  rintro rfl
  exact absurd h.starts (by decide)

theorem front_append (h : g.TakesStmt d ls stmt) (rest : List Lexeme) :
    (front (ls ++ rest)).startsStatement = true := by
  rw [front_append_of_ne_nil h.ne_nil]
  exact h.starts

theorem isSeparator (h : g.TakesStmt d ls stmt) (rest : List Lexeme) :
    isSeparator (front (ls ++ rest)) = false := by
  have := h.front_append rest
  simp_all [Lexeme.startsStatement]

theorem isNewline (h : g.TakesStmt d ls stmt) (rest : List Lexeme) :
    (front (ls ++ rest)).isNewline = false := by
  have := h.isSeparator rest
  simp_all [Parse.isSeparator]

theorem isRightBrace (h : g.TakesStmt d ls stmt) (rest : List Lexeme) :
    (front (ls ++ rest)).isMark .rightBrace = false := by
  have := h.front_append rest
  simp_all [Lexeme.startsStatement]

theorem isEof (h : g.TakesStmt d ls stmt) (rest : List Lexeme) :
    (front (ls ++ rest)).isEof = false := by
  have := h.front_append rest
  simp_all [Lexeme.startsStatement]

end TakesStmt

theorem reads_terminator : Reads terminator d [.mark .semicolon] () rest :=
  reads_peek.bind_nil reads_advance

theorem reads_finish {stmt : Stmt} : Reads (finish stmt) d [.mark .semicolon] () rest := by
  unfold finish
  split
  · exact reads_terminator
  · exact reads_takeMark.bind_last .pure

/-- A statement is read with its semicolon. -/
theorem TakesStmt.statement {stmt : Stmt} (h : g.TakesStmt d ls stmt) :
    Reads g.statement d (ls ++ [.mark .semicolon]) stmt rest := by
  refine (h.reads _).bind ?_
  exact reads_finish.bind_last .pure

theorem reads_blockRest {w : Stmt → List Lexeme} (first stmts : List Stmt)
    (h : ∀ stmt ∈ stmts, g.TakesStmt d (w stmt) stmt) :
    Reads (g.blockRest first) d (sequence w stmts ++ [.mark .rightBrace]) (first ++ stmts)
      rest := by
  obtain ⟨found, rfl⟩ : ∃ found : List Stmt, first = found.reverse := ⟨first.reverse, by simp⟩
  refine Iterates.reads ?_
  rw [List.reverse_reverse]
  induction stmts generalizing found with
  | nil =>
    rw [List.append_nil]
    refine Iterates.done ?_
    refine (reads_skipSeparators rfl).bind_nil ?_
    refine reads_peek.bind_nil ?_
    exact reads_advance.bind_one .pure
  | cons stmt stmts ih =>
    have hstmt := h stmt (by simp)
    have hrest := ih (fun s hs => h s (by simp [hs])) (stmt :: found)
    rw [List.reverse_cons, List.append_assoc, List.singleton_append] at hrest
    rw [sequence, List.flatMap_cons, List.append_assoc]
    refine Iterates.more ?_ (by simp) hrest
    refine (reads_skipSeparators ?_).bind_nil ?_
    · rw [List.append_assoc]
      exact hstmt.isSeparator _
    refine reads_peek.bind_nil ?_
    rw [List.append_assoc, hstmt.isRightBrace, hstmt.isEof]
    exact hstmt.statement.bind_last .pure

/-- Statements between braces are read back. -/
theorem reads_block {w : Stmt → List Lexeme} {stmts : List Stmt}
    (h : ∀ stmt ∈ stmts, g.TakesStmt d (w stmt) stmt) :
    Reads g.block d (braces (sequence w stmts)) stmts rest := by
  refine (reads_skipNewlines rfl).bind_nil ?_
  refine reads_expectMark.bind_one ?_
  exact reads_blockRest [] stmts h

/-- What stands behind the opening brace of a block makes a block. -/
theorem reads_brace_block {w : Stmt → List Lexeme} {stmts : List Stmt} (hne : stmts ≠ [])
    (h : ∀ stmt ∈ stmts, g.TakesStmt d (w stmt) stmt) :
    Reads g.brace d (sequence w stmts ++ [.mark .rightBrace]) (.block stmts) rest := by
  obtain ⟨stmt, stmts, rfl⟩ := List.exists_cons_of_ne_nil hne
  have hstmt := h stmt (by simp)
  rw [sequence, List.flatMap_cons, List.append_assoc, List.append_assoc]
  refine (reads_skipNewlines ?_).bind_nil ?_
  · rw [List.append_assoc]
    exact hstmt.isNewline _
  refine (reads_takeMark_of_not ?_).bind_nil ?_
  · rw [List.append_assoc]
    exact hstmt.isRightBrace _
  refine reads_peek.bind_nil ?_
  refine (hstmt.reads _).bind ?_
  refine (reads_atMark_of_not rfl).bind_nil ?_
  have hrest : Reads (g.blockRest [stmt]) d _ _ rest :=
    reads_blockRest [stmt] stmts fun s hs => h s (by simp [hs])
  split
  · contradiction
  · exact reads_finish.bind_one (hrest.bind_last .pure)

def pairTail (w : Expr → List Lexeme) (value : Expr) : List (Expr × Expr) → List Lexeme
  | [] => .mark .colon :: w value
  | (key, next) :: rest =>
    .mark .colon :: (w value ++ .mark .comma :: w key) ++ pairTail w next rest

/-- The entries of a map are its first key and a tail that starts after it. -/
theorem commas_pairs (w : Expr → List Lexeme) (key value : Expr) (pairs : List (Expr × Expr)) :
    commas (((key, value) :: pairs).map fun p => w p.1 ++ .mark .colon :: w p.2) =
      w key ++ pairTail w value pairs := by
  induction pairs generalizing key value with
  | nil => rfl
  | cons p pairs ih =>
    obtain ⟨k, v⟩ := p
    have hnext := ih k v
    rw [List.map_cons] at hnext ⊢
    rw [List.map_cons, commas_cons_cons, hnext]
    simp [pairTail]

theorem reads_mapRest {w : Expr → List Lexeme} (key value : Expr) (pairs : List (Expr × Expr))
    (hvalue : g.Takes d (w value) value)
    (h : ∀ p ∈ pairs, g.Takes d (w p.1) p.1 ∧ g.Takes d (w p.2) p.2) :
    Reads (g.mapRest key) d (pairTail w value pairs ++ [.mark .rightBrace])
      (.map ((key, value) :: pairs)) rest := by
  refine Iterates.reads ?_
  change Iterates _ d (key, []) _
    (Expr.map (([] : List (Expr × Expr)).reverse ++ (key, value) :: pairs)) rest
  generalize ([] : List (Expr × Expr)) = found
  induction pairs generalizing key value found with
  | nil =>
    refine Iterates.done ?_
    refine reads_expectMark.bind_one ?_
    refine (reads_skipNewlines (by simpa using hvalue.isNewline _)).bind_nil ?_
    refine (hvalue.reads _ rfl).bind ?_
    refine (reads_skipNewlines rfl).bind_nil ?_
    refine (reads_takeMark_of_not rfl).bind_nil ?_
    refine reads_takeMark.bind_one ?_
    rw [← List.reverse_cons]
    exact .pure
  | cons p pairs ih =>
    obtain ⟨k, v⟩ := p
    obtain ⟨hk, hv⟩ := h (k, v) (by simp)
    have hrest := ih k v hv (fun p hp => h p (by simp [hp])) ((key, value) :: found)
    rw [List.reverse_cons, List.append_assoc, List.singleton_append] at hrest
    rw [pairTail, List.append_assoc]
    refine Iterates.more ?_ (by simp) hrest
    refine reads_expectMark.bind_one ?_
    refine (reads_skipNewlines (by simpa using hvalue.isNewline _)).bind_nil ?_
    refine (hvalue.reads _ rfl).bind ?_
    refine (reads_skipNewlines rfl).bind_nil ?_
    refine reads_takeMark.bind_one ?_
    refine (reads_skipNewlines (hk.isNewline _)).bind_nil ?_
    refine (reads_takeMark_of_not (hk.isMark rfl _)).bind_nil ?_
    refine reads_peek.bind_nil ?_
    rw [hk.isEof, hk.isName]
    refine (hk.reads _ ?_).bind_last ?_
    · cases pairs <;> rfl
    rw [Expr.asKey_false]
    exact .pure

/-- A map is told from a block and read back. -/
theorem reads_brace_map {w : Expr → List Lexeme} {pairs : List (Expr × Expr)}
    (h : ∀ p ∈ pairs, g.Takes d (w p.1) p.1 ∧ g.Takes d (w p.2) p.2) :
    Reads g.brace d
      (commas (pairs.map fun p => w p.1 ++ .mark .colon :: w p.2) ++ [.mark .rightBrace])
      (.map pairs) rest := by
  cases pairs with
  | nil =>
    refine (reads_skipNewlines rfl).bind_nil ?_
    exact reads_takeMark.bind_one .pure
  | cons p pairs =>
    obtain ⟨key, value⟩ := p
    obtain ⟨hkey, hvalue⟩ := h (key, value) (by simp)
    rw [commas_pairs, List.append_assoc]
    refine (reads_skipNewlines ?_).bind_nil ?_
    · rw [List.append_assoc]
      exact hkey.isNewline _
    refine (reads_takeMark_of_not ?_).bind_nil ?_
    · rw [List.append_assoc]
      exact hkey.isMark rfl _
    refine reads_peek.bind_nil ?_
    rw [List.append_assoc, hkey.isName]
    refine (hkey.body _ ?_).bind ?_
    · cases pairs <;> rfl
    refine (reads_atMark ?_).bind_nil ?_
    · cases pairs <;> rfl
    change Reads (g.mapRest (key.asKey false)) d _ _ rest
    rw [Expr.asKey_false]
    exact reads_mapRest key value pairs hvalue fun p hp => h p (by simp [hp])

theorem reads_operand_brace (h : Reads g.brace d ls e rest) :
    Reads g.operand d (.mark .leftBrace :: ls) e rest :=
  reads_operand_mark fun _ => reads_advance.bind_one h

/-! ## Choices -/

theorem reads_branch_expr (h : g.Takes d ls e) (hrest : (front rest).level = .lowest) :
    Reads g.branch d ls [.expr e] rest := by
  refine (reads_skipNewlines (h.isNewline _)).bind_nil ?_
  refine (reads_takeMark_of_not (h.isMark rfl _)).bind_nil ?_
  exact (h.reads _ hrest).bind_last .pure

/-- A branch in braces is a block. -/
theorem reads_branch_block {w : Stmt → List Lexeme} {stmts : List Stmt} (hne : stmts ≠ [])
    (h : ∀ stmt ∈ stmts, g.TakesStmt d (w stmt) stmt) :
    Reads g.branch d (braces (sequence w stmts)) stmts rest := by
  refine (reads_skipNewlines rfl).bind_nil ?_
  refine reads_takeMark.bind_one ?_
  exact (reads_brace_block hne h).bind_last .pure

/-- A branch of a choice: it does not start with a colon. -/
theorem reads_extend_choice {l₁ l₂ : List Lexeme} {consequence alternative : List Stmt}
    (hcolon : (front (l₁ ++ .mark .colon :: (l₂ ++ rest))).isMark .colon = false)
    (h₁ : Reads g.branch d l₁ consequence (.mark .colon :: (l₂ ++ rest)))
    (h₂ : Reads g.branch d l₂ alternative rest) :
    Reads (g.extend left) d (.mark .question :: (l₁ ++ .mark .colon :: l₂))
      (.choice left (some consequence) alternative) rest := by
  refine reads_token_bind fun t ht => ?_
  rw [ht]
  refine reads_advance.bind_one ?_
  refine (reads_atMark_of_not (by simpa using hcolon)).bind_nil ?_
  refine h₁.bind ?_
  refine (reads_skipNewlines rfl).bind_nil ?_
  refine Reads.pure.bind_nil ?_
  refine reads_expectMark.bind_one ?_
  exact h₂.bind_last .pure

theorem reads_extend_choice_none {ls : List Lexeme} {alternative : List Stmt}
    (h : Reads g.branch d ls alternative rest) :
    Reads (g.extend left) d (.mark .question :: .mark .colon :: ls)
      (.choice left none alternative) rest := by
  refine reads_token_bind fun t ht => ?_
  rw [ht]
  refine reads_advance.bind_one ?_
  refine (reads_atMark rfl).bind_nil ?_
  refine Reads.pure.bind_nil ?_
  refine reads_expectMark.bind_one ?_
  exact h.bind_last .pure

/-! ## Functions -/

/-- A parameter is read back, with its type if it has one. -/
theorem reads_parameter (p : Parameter) (h : p.isTyped = true) :
    Reads parameter d p.lexemes p rest := by
  obtain ⟨name, typeName⟩ := p
  have hname : Reads (expectVariable "parameter name") d [.mark .dollar, .ofWord name] name rest :=
    reads_expectVariable (Lexeme.word?_ofWord name)
  refine reads_peek.bind_nil ?_
  cases typeName with
  | none =>
    refine Reads.pure.bind_nil ?_
    exact hname.bind_last .pure
  | some word =>
    have hword : Keyword.ofWord? word = none := by simpa [Parameter.isTyped] using h
    simp only [Parameter.lexemes, Option.toList_some, List.map_cons, List.map_nil,
      List.singleton_append, Lexeme.ofWord_of_none hword]
    refine ((reads_expectName rfl).map some).bind_one ?_
    exact hname.bind_last .pure

theorem front_parameter (p : Parameter) (h : p.isTyped = true) (rest : List Lexeme) :
    (front (p.lexemes ++ rest)).isNewline = false ∧
      (front (p.lexemes ++ rest)).isMark .rightParen = false := by
  obtain ⟨name, typeName⟩ := p
  cases typeName with
  | none => exact ⟨rfl, rfl⟩
  | some word =>
    have hword : Keyword.ofWord? word = none := by simpa [Parameter.isTyped] using h
    simp [Parameter.lexemes, Lexeme.ofWord_of_none hword, Lexeme.isNewline, Lexeme.isMark]

/-- Parameters with commas between them. From the second one on, a round of the loop takes the comma
before a parameter. -/
theorem reads_parameters (params : List Parameter) (h : ∀ p ∈ params, p.isTyped = true) :
    Reads parameters d (parens (commas (params.map Parameter.lexemes))) params rest := by
  refine reads_expectMark.bind_one ?_
  refine Iterates.reads ?_
  cases params with
  | nil =>
    refine Iterates.done ?_
    refine (reads_skipNewlines rfl).bind_nil ?_
    exact reads_takeMark.bind_one .pure
  | cons p params =>
    have hp := h p (by simp)
    rw [List.map_cons, commas_cons, List.append_assoc]
    refine Iterates.more ((reads_skipNewlines (front_parameter p hp _).1).bind_nil
      ((reads_takeMark_of_not (front_parameter p hp _).2).bind_nil
        ((reads_parameter p hp).bind_last .pure))) (by simp [Parameter.lexemes]) ?_
    change Iterates _ d [p] _ ([p].reverse ++ params) rest
    have hfound : [p] ≠ [] := by simp
    generalize [p] = found at hfound ⊢
    induction params generalizing found with
    | nil =>
      rw [List.append_nil]
      refine Iterates.done ?_
      refine (reads_skipNewlines rfl).bind_nil ?_
      exact reads_takeMark.bind_one .pure
    | cons q params ih =>
      have hq := h q (by simp)
      have hrest := ih (fun p' hp' => h p' (by grind)) (q :: found) (by simp)
      rw [List.reverse_cons, List.append_assoc, List.singleton_append] at hrest
      rw [List.map_cons, List.flatMap_cons, List.append_assoc]
      refine Iterates.more ?_ (by simp) hrest
      refine (reads_skipNewlines rfl).bind_nil ?_
      refine (reads_takeMark_of_not rfl).bind_nil ?_
      dsimp only
      rw [if_neg Bool.false_ne_true, if_neg (by simpa using hfound)]
      refine reads_expectMark.bind_one ?_
      refine (reads_skipNewlines (front_parameter q hq _).1).bind_nil ?_
      exact (reads_parameter q hq).bind_last .pure

/-- A function is read back with its parameters and its body. -/
theorem reads_operand_function {w : Stmt → List Lexeme} {name : String} {params : List Parameter}
    {stmts : List Stmt} (hname : name = anonymous ∨ Keyword.ofWord? name = none)
    (hparams : ∀ p ∈ params, p.isTyped = true)
    (h : ∀ stmt ∈ stmts, g.TakesStmt d (w stmt) stmt) :
    Reads g.operand d (.keyword .functionKw :: ((if name = anonymous then [] else [.ofWord name]) ++
      (parens (commas (params.map Parameter.lexemes)) ++ braces (sequence w stmts))))
      (.function ⟨name, params, some stmts, false⟩) rest := by
  refine reads_operand_keyword fun _ => ?_
  refine reads_advance.bind_one ?_
  refine reads_peek.bind_nil ?_
  by_cases hanon : name = anonymous
  · subst hanon
    rw [if_pos rfl]
    refine Reads.pure.bind_nil ?_
    refine (reads_parameters params hparams).bind ?_
    exact (reads_block h).bind_last .pure
  · have hword := hname.resolve_left hanon
    rw [if_neg hanon, Lexeme.ofWord_of_none hword]
    refine (reads_expectName rfl).bind_one ?_
    refine (reads_parameters params hparams).bind ?_
    exact (reads_block h).bind_last .pure

end Grammar

end RouteScript
