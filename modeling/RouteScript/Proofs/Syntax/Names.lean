import RouteScript.Proofs.Syntax.Climbing
import RouteScript.Proofs.Syntax.RoundTrip
import RouteScript.Proofs.Token.Scanning

/-!
# Names in source texts

A variable or a member is named by any word, also by a keyword. A keyword counts by its own spelling
and not by the word in the source text, and four words are keywords with another spelling. So two
words name two variables, unless both are spellings of one keyword.
-/

namespace RouteScript

open Parse Grammar Token

/-! ## Words -/

namespace Keyword

def nameOf (word : String) : String := (ofWord? word).elim word spelling

/-- The words that are keywords with another spelling. -/
def aliases : List String := ["null", "Import", "@import", "func"]

/-- Two words are the same, or spellings of one keyword. -/
def SameWord (v w : String) : Prop := v = w ∨ ∃ k, ofWord? v = some k ∧ ofWord? w = some k

theorem ofWord?_spelling (k : Keyword) : ofWord? k.spelling = some k := by
  cases k <;> rfl

theorem mem_table_of_ofWord? {word : String} {k : Keyword} (h : ofWord? word = some k) :
    (word, k) ∈ table := by
  obtain ⟨before, behind, htable, -⟩ := List.lookup_eq_some_iff.mp h
  simp [htable]

theorem nameOf_eq_self_iff {word : String} : nameOf word = word ↔ word ∉ aliases := by
  cases hk : ofWord? word with
  | none =>
    have hplain : word ∉ aliases := by
      intro hmem
      have hkeywords : aliases.all (fun w => (ofWord? w).isSome) = true := by decide +kernel
      simpa [hk] using List.all_eq_true.mp hkeywords word hmem
    simp [nameOf, hk, hplain]
  | some k =>
    have htable : table.all (fun e => decide (e.2.spelling = e.1 ↔ e.1 ∉ aliases)) = true := by
      decide +kernel
    have hentry := List.all_eq_true.mp htable _ (mem_table_of_ofWord? hk)
    simpa [nameOf, hk] using of_decide_eq_true hentry

/-- Two words give one name if they are the same word or aliases of one keyword. -/
theorem nameOf_eq_iff {v w : String} : nameOf v = nameOf w ↔ SameWord v w := by
  constructor
  · intro h
    cases hv : ofWord? v with
    | none =>
      cases hw : ofWord? w with
      | none => exact .inl (by simpa [nameOf, hv, hw] using h)
      | some k =>
        -- a word that is no keyword is not the spelling of one
        obtain rfl : v = k.spelling := by simpa [nameOf, hv, hw] using h
        simp [ofWord?_spelling] at hv
    | some k =>
      have hk : ofWord? (nameOf w) = some k := by
        rw [← h]
        simp [nameOf, hv, ofWord?_spelling]
      cases hw : ofWord? w with
      | none => simp [nameOf, hw] at hk
      | some k' =>
        obtain rfl : k' = k := by simpa [nameOf, hw, ofWord?_spelling] using hk
        exact .inr ⟨k', hv, hw⟩
  · rintro (rfl | ⟨k, hv, hw⟩)
    · rfl
    · simp [nameOf, hv, hw]

/-- A word is read as its name. -/
theorem word?_lexemeOf (word : String) : (lexemeOf word).word? = some (nameOf word) := by
  unfold lexemeOf nameOf
  cases ofWord? word <;> rfl

end Keyword

/-! ## Paths of names -/

/-- A variable and members of members of it, each by its word. -/
structure NamePath where
  root : String
  members : List (Access × String)

namespace NamePath

def words (p : NamePath) : List String := p.root :: p.members.map (·.2)

def memberSource (members : List (Access × String)) : List Char :=
  members.flatMap fun m => m.1.mark.spelling.toList ++ m.2.toList

def source (p : NamePath) : String :=
  "$" ++ p.root ++ String.ofList (memberSource p.members)

/-- The expression of a path in which every name is its word. -/
def expr (p : NamePath) : Expr :=
  p.members.foldl (fun object m => .member object m.2 m.1) (.name p.root)

/-- The path with the name that each word stands for. -/
def named (p : NamePath) : NamePath :=
  ⟨Keyword.nameOf p.root, p.members.map fun m => (m.1, Keyword.nameOf m.2)⟩

theorem eq_of_expr_eq {p q : NamePath} (h : p.expr = q.expr) : p = q := by
  obtain ⟨root, members⟩ := p
  obtain ⟨root', members'⟩ := q
  unfold expr at h
  dsimp only at h
  induction members using List.reverseRecOn generalizing members' with
  | nil =>
    cases members' using List.reverseRecOn with
    | nil => simp_all
    | append_singleton => simp at h
  | append_singleton members m ih =>
    cases members' using List.reverseRecOn with
    | nil => simp at h
    | append_singleton members' m' =>
      simp only [List.foldl_append, List.foldl_cons, List.foldl_nil, Expr.member.injEq] at h
      have hinit := ih members' h.1
      simp_all [Prod.ext_iff]

/-- Different paths are different expressions. -/
theorem expr_inj {p q : NamePath} : p.expr = q.expr ↔ p = q :=
  ⟨eq_of_expr_eq, fun h => by rw [h]⟩

theorem named_eq_self_iff {p : NamePath} :
    p.named = p ↔ ∀ w ∈ p.words, w ∉ Keyword.aliases := by
  obtain ⟨root, members⟩ := p
  have hmembers : members.map (fun m => (m.1, Keyword.nameOf m.2)) = members ↔
      ∀ m ∈ members, m.2 ∉ Keyword.aliases := by
    nth_rewrite 2 [← List.map_id members]
    simp only [List.map_inj_left, id, Prod.ext_iff, true_and, Keyword.nameOf_eq_self_iff]
  simp only [named, mk.injEq, words, List.forall_mem_cons, List.forall_mem_map, hmembers,
    Keyword.nameOf_eq_self_iff]

/-- Two paths give one expression if their words do, in order. -/
theorem named_eq_iff {p q : NamePath} :
    p.named = q.named ↔ Keyword.SameWord p.root q.root ∧
      List.Forall₂ (fun m m' => m.1 = m'.1 ∧ Keyword.SameWord m.2 m'.2) p.members q.members := by
  rw [named, named, mk.injEq, ← List.forall₂_eq_eq_eq, List.forall₂_map_left_iff,
    List.forall₂_map_right_iff]
  simp only [Prod.mk.injEq, Keyword.nameOf_eq_iff]

/-- Whether all the words can be read and the root does not stand for the object itself. -/
def isSpelled (p : NamePath) : Bool := p.words.all isWord && p.root != "this"

def memberLexemes (members : List (Access × String)) : List Lexeme :=
  members.flatMap fun m => [.mark m.1.mark, lexemeOf m.2]

/-! ## Tokens -/

theorem foundAt_access (access : Access) {rest : List Char}
    (hrest : ∀ d ∈ rest.head?, continuesName d = true) :
    FoundAt (.mark access.mark) access.mark.spelling.toList rest := by
  cases access with
  | dot => exact foundAt_char rfl hrest
  | arrow => exact foundAt_pair rfl
  | static => exact foundAt_pair rfl

theorem spelling_access (access : Access) :
    ∃ c more, access.mark.spelling.toList = c :: more ∧ continuesName c = false := by
  cases access <;> exact ⟨_, _, rfl, rfl⟩

/-- Where a member starts, a name has ended. -/
theorem stopsAt_memberSource (members : List (Access × String)) :
    StopsAt continuesName (memberSource members) := by
  intro c hc
  cases members with
  | nil => simp [memberSource] at hc
  | cons m members =>
    obtain ⟨first, more, hspelling, hfirst⟩ := spelling_access m.1
    obtain rfl : first = c := by simpa [memberSource, hspelling] using hc
    exact hfirst

theorem lexemes_tokensFrom_word {word : String} (hword : isWord word = true)
    (members : List (Access × String)) (hmembers : ∀ m ∈ members, isWord m.2 = true)
    (p : Position) :
    (tokensFrom p (word.toList ++ memberSource members)).map Token.lexeme =
      lexemeOf word :: memberLexemes members ++ [.eof] := by
  induction members generalizing word p with
  | nil =>
    rw [tokensFrom_of_foundAt (foundAt_word hword (stopsAt_memberSource [])), memberSource,
      List.flatMap_nil, tokensFrom_nil]
    rfl
  | cons m members ih =>
    obtain ⟨hm, hmembers⟩ := List.forall_mem_cons.mp hmembers
    have hsource : memberSource (m :: members) =
        m.1.mark.spelling.toList ++ (m.2.toList ++ memberSource members) := by
      simp [memberSource]
    rw [tokensFrom_of_foundAt (foundAt_word hword (stopsAt_memberSource _)), hsource,
      tokensFrom_of_foundAt (foundAt_access m.1 (continuesName_of_isWord hm _))]
    simp [ih hm hmembers, memberLexemes]

/-- The tokens of a path are its root and its members in order. -/
theorem lexemes_tokenize {p : NamePath} (hp : p.isSpelled = true) :
    (tokenize p.source).map Token.lexeme =
      [.mark .dollar, lexemeOf p.root] ++ memberLexemes p.members ++ [.eof] := by
  simp only [isSpelled, words, List.all_cons, Bool.and_eq_true, List.all_eq_true] at hp
  obtain ⟨⟨hroot, hmembers⟩, -⟩ := hp
  have hsource : p.source.toList = ['$'] ++ (p.root.toList ++ memberSource p.members) := by
    simp [source]
  have hdollar : FoundAt (.mark .dollar) ['$'] (p.root.toList ++ memberSource p.members) :=
    foundAt_char rfl (continuesName_of_isWord hroot _)
  rw [tokenize, hsource, tokensFrom_of_foundAt hdollar, List.map_cons,
    lexemes_tokensFrom_word hroot p.members (fun m hm => hmembers _ (List.mem_map_of_mem hm))]
  rfl

/-! ## Reading -/

theorem isKeyword_lexemeOf {word : String} (h : word ≠ "this") :
    (lexemeOf word).isKeyword .thisKw = false := by
  unfold lexemeOf
  cases hk : Keyword.ofWord? word with
  | none => rfl
  | some k =>
    have htable : Keyword.table.all (fun e => e.1 == "this" || e.2 != .thisKw) = true := by
      decide +kernel
    have hentry := List.all_eq_true.mp htable _ (Keyword.mem_table_of_ofWord? hk)
    simpa [h, Lexeme.isKeyword] using hentry

/-- Members of members are read in one run of the loop, so no depth is spent on them. -/
theorem climbs {g : Grammar} {d : Nat} (p : NamePath) (hroot : p.root ≠ "this")
    (rest : List Lexeme) :
    Climbs g .lowest d ([.mark .dollar, lexemeOf p.root] ++ memberLexemes p.members)
      p.named.expr rest := by
  obtain ⟨root, members⟩ := p
  induction members using List.reverseRecOn generalizing rest with
  | nil =>
    exact .operand (reads_operand_variable (Keyword.word?_lexemeOf root) (isKeyword_lexemeOf hroot))
  | append_singleton members m ih =>
    have hlevel : Level.lowest.rank < m.1.mark.level.rank := by
      rw [m.1.mark_level]
      decide
    have hextend : Reads (g.extend (named ⟨root, members⟩).expr) d [.mark m.1.mark, lexemeOf m.2]
        (.member (named ⟨root, members⟩).expr (Keyword.nameOf m.2) m.1) rest :=
      reads_extend_member (Keyword.word?_lexemeOf m.2)
    have hclimbs : Climbs g .lowest d (_ ++ [.mark m.1.mark, lexemeOf m.2]) _ rest :=
      .extend (ih _ hroot) hlevel (List.cons_ne_nil _ _) hextend
    simpa [memberLexemes, named, expr] using hclimbs

/-- A path is parsed to the expression with the names of its words. -/
theorem ofSource_named {p : NamePath} (hp : p.isSpelled = true) :
    Program.ofSource p.source = .ok ⟨[.expr p.named.expr]⟩ := by
  have hroot : p.root ≠ "this" := by
    simp only [isSpelled, Bool.and_eq_true, bne_iff_ne] at hp
    exact hp.2
  refine Program.ofSource_of_body (lexemes_tokenize hp) rfl rfl ?_
  exact reads_bodyOf_expr rfl
    (Climbs.reads_expressionOf (by decide) (p.climbs hroot []) (by decide))

/-- A variable and the members behind it are read with the names that their words stand for. These
are the words themselves exactly if no word is the other spelling of a keyword; and two source texts
are read alike exactly if they differ in nothing but the spelling of keywords. -/
theorem named_by_spelling (p q : NamePath) (hp : p.isSpelled = true) (hq : q.isSpelled = true) :
    Program.ofSource p.source = .ok ⟨[.expr p.named.expr]⟩ ∧
    (Program.ofSource p.source = .ok ⟨[.expr p.expr]⟩ ↔ ∀ w ∈ p.words, w ∉ Keyword.aliases) ∧
    (Program.ofSource p.source = Program.ofSource q.source ↔
      Keyword.SameWord p.root q.root ∧
      List.Forall₂ (fun m m' => m.1 = m'.1 ∧ Keyword.SameWord m.2 m'.2) p.members q.members) := by
  have hread {e e' : Expr} : (.ok ⟨[.expr e]⟩ : Except (List Diagnostic) Program) =
      .ok ⟨[.expr e']⟩ ↔ e = e' := by simp
  rw [ofSource_named hp, ofSource_named hq]
  refine ⟨rfl, ?_, ?_⟩
  · rw [hread, expr_inj, named_eq_self_iff]
  · rw [hread, expr_inj, named_eq_iff]

/-- The source texts `$null.func` and `$nil.function`. -/
theorem named_by_spelling_aliases :
    let p : NamePath := ⟨"null", [(.dot, "func")]⟩
    let q : NamePath := ⟨"nil", [(.dot, "function")]⟩
    p.isSpelled = true ∧ q.isSpelled = true ∧
    Program.ofSource p.source = .ok ⟨[.expr (.member (.name "nil") "function" .dot)]⟩ ∧
    ¬ Program.ofSource p.source = .ok ⟨[.expr (.member (.name "null") "func" .dot)]⟩ ∧
    Program.ofSource p.source = Program.ofSource q.source := by
  intro p q
  have hp : p.isSpelled = true := by decide +kernel
  have hq : q.isSpelled = true := by decide +kernel
  obtain ⟨hread, hself, hsame⟩ := named_by_spelling p q hp hq
  refine ⟨hp, hq, hread, fun h => ?_, hsame.mpr ⟨.inr ⟨.nilKw, rfl, rfl⟩, ?_⟩⟩
  · exact hself.mp h "null" (by simp [p, words]) (by decide)
  · exact .cons ⟨rfl, .inr ⟨.functionKw, rfl, rfl⟩⟩ .nil

end NamePath

end RouteScript
