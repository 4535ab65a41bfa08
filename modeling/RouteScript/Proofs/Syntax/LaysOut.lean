import RouteScript.Proofs.Syntax.Layout

/-!
# Readers and layouts

`LaysOut P pre post W m m'` says of a reader `m`: whatever it reads can be cut into pieces such that
`m'` reads every loosened form of them with the same result. `W` says which pieces belong to which
result, and `P` which lexeme is in front.

A reader looks ahead, so what follows matters too. `post` relates what follows in the text that was
read and what follows in the loosened one; it is what the reader asks for. `pre` relates the two
texts from the place on where the reader starts; it is what the reader before gets. So in a sequence
of two readers the `pre` of the second one is the `post` of the first.

The two readers differ in nothing but how deep they allow constructs to be nested.
-/

namespace RouteScript

/-! ## Lexemes and loosened layouts -/

@[simp] theorem Piece.lexemes_fixed (l : Lexeme) : (Piece.fixed l).lexemes = [l] := rfl

@[simp] theorem Piece.lexemes_gap (n : Nat) :
    (Piece.gap n).lexemes = List.replicate n .newline := rfl

@[simp] theorem Piece.lexemes_ending_none (n : Nat) :
    (Piece.ending n none).lexemes = List.replicate n .newline := rfl

@[simp] theorem Piece.lexemes_ending_some (n m : Nat) : (Piece.ending n (some m)).lexemes =
    List.replicate n .newline ++ .mark .comma :: List.replicate m .newline := rfl

@[simp] theorem lexemesOf_nil : lexemesOf [] = [] := rfl

@[simp] theorem lexemesOf_cons (p : Piece) (ps : List Piece) :
    lexemesOf (p :: ps) = p.lexemes ++ lexemesOf ps := rfl

@[simp] theorem lexemesOf_append (ps qs : List Piece) :
    lexemesOf (ps ++ qs) = lexemesOf ps ++ lexemesOf qs := List.flatMap_append

@[simp] theorem lexemesOf_map_fixed (ls : List Lexeme) : lexemesOf (ls.map .fixed) = ls := by
  induction ls with
  | nil => rfl
  | cons l ls ih => simp [ih]

theorem Loosened.refl (ps : List Piece) : Loosened ps ps := by
  refine List.forall₂_same.mpr fun p _ => ?_
  cases p with
  | fixed l => exact .fixed l
  | gap n => exact .gap (Nat.le_refl n)
  | ending n comma =>
    cases comma with
    | none => exact .ending (Nat.le_refl n)
    | some m => exact .behind (Nat.le_refl n) (Nat.le_refl m)

theorem Piece.Loosens.length_le {p p' : Piece} (h : p.Loosens p') :
    p.lexemes.length ≤ p'.lexemes.length := by
  cases h <;> simp [Piece.lexemes] <;> omega

/-- Loosening takes no lexeme away. -/
theorem Loosened.length_le {ps ps' : List Piece} (h : Loosened ps ps') :
    (lexemesOf ps).length ≤ (lexemesOf ps').length := by
  induction h with
  | nil => exact Nat.le_refl _
  | cons hp _ ih =>
    have := hp.length_le
    simp only [lexemesOf_cons, List.length_append]
    omega

theorem Loosened.ne_nil {ps ps' : List Piece} (h : Loosened ps ps') (hne : lexemesOf ps ≠ []) :
    lexemesOf ps' ≠ [] :=
  List.length_pos_iff.mp (Nat.lt_of_lt_of_le (List.length_pos_iff.mpr hne) h.length_le)

/-- A fixed piece stays as it is when pieces are loosened. -/
theorem Loosened.of_fixed_cons {l : Lexeme} {ps ps' : List Piece}
    (h : Loosened (.fixed l :: ps) ps') : ∃ qs, ps' = .fixed l :: qs ∧ Loosened ps qs := by
  cases h with
  | cons hp hps =>
    cases hp
    exact ⟨_, rfl, hps⟩

theorem Loosened.of_fixed {l : Lexeme} {ps : List Piece} (h : Loosened [.fixed l] ps) :
    ps = [.fixed l] := by
  obtain ⟨qs, rfl, hqs⟩ := h.of_fixed_cons
  rw [List.forall₂_nil_left_iff.mp hqs]

theorem Loosened.of_gap_cons {n : Nat} {ps ps' : List Piece} (h : Loosened (.gap n :: ps) ps') :
    ∃ m qs, n ≤ m ∧ ps' = .gap m :: qs ∧ Loosened ps qs := by
  cases h with
  | cons hp hps =>
    cases hp with
    | gap hle => exact ⟨_, _, hle, rfl, hps⟩

/-- Loosened pieces can be split where the original ones were. -/
theorem Loosened.of_append {ps qs rs : List Piece} (h : Loosened (ps ++ qs) rs) :
    ∃ ps' qs', rs = ps' ++ qs' ∧ Loosened ps ps' ∧ Loosened qs qs' := by
  induction ps generalizing rs with
  | nil => exact ⟨[], rs, rfl, .nil, h⟩
  | cons p ps ih =>
    cases h with
    | cons hp hrest =>
      obtain ⟨ps', qs', rfl, hps, hqs⟩ := ih hrest
      exact ⟨_ :: ps', qs', rfl, .cons hp hps, hqs⟩

theorem Loosened.of_map_fixed {ls : List Lexeme} {ps : List Piece}
    (h : Loosened (ls.map .fixed) ps) : ps = ls.map .fixed := by
  induction ls generalizing ps with
  | nil => exact List.forall₂_nil_left_iff.mp h
  | cons l ls ih =>
    obtain ⟨qs, rfl, hqs⟩ := h.of_fixed_cons
    rw [ih hqs, List.map_cons]

/-! ## Stretches -/

theorem stretch_nil {kind : Lexeme → Bool} : Stretch kind [] := ⟨[], by simp, rfl⟩

theorem stretch_one {kind : Lexeme → Bool} {l : Lexeme} (h : kind l = true) :
    Stretch kind [.fixed l] := ⟨[l], by simpa using h, rfl⟩

theorem stretch_newlines (n : Nat) :
    Stretch Lexeme.isNewline ((List.replicate n Lexeme.newline).map .fixed) := by
  refine ⟨_, fun l hl => ?_, rfl⟩
  rw [List.eq_of_mem_replicate hl]
  rfl

theorem Stretch.append {kind : Lexeme → Bool} {p q : List Piece} (hp : Stretch kind p)
    (hq : Stretch kind q) : Stretch kind (p ++ q) := by
  obtain ⟨ls, hls, rfl⟩ := hp
  obtain ⟨ls', hls', rfl⟩ := hq
  refine ⟨ls ++ ls', ?_, by simp⟩
  intro l hl
  rcases List.mem_append.mp hl with hl | hl
  · exact hls l hl
  · exact hls' l hl

/-! ## Lists -/

section Lists

variable {α : Type} {R : α → List Piece → Prop} {a : α} {as : List α} {p ps : List Piece}
  {close : Mark}

/-- An item before a list, with a comma between them. Before an empty list it is the comma of the
last item. -/
theorem Enclosed.cons (n m : Nat) (ha : R a p) (has : Enclosed R close as ps) :
    ∃ qs, Enclosed R close (a :: as) (.gap n :: (p ++ qs)) ∧
      lexemesOf qs = List.replicate m .newline ++ .mark .comma :: lexemesOf ps ∧
      ∀ qs', Loosened qs qs' → ∃ m' ps', Loosened ps ps' ∧
        lexemesOf qs' = List.replicate m' .newline ++ .mark .comma :: lexemesOf ps' := by
  cases has with
  | none k =>
    refine ⟨[.ending m (Option.some k), .mark close], .some n m _ (.one ha), by simp, ?_⟩
    intro qs' hqs
    cases hqs with
    | cons hend hclose =>
      cases hend with
      | @behind _ m' _ k' hm hk =>
        rw [Loosened.of_fixed hclose]
        exact ⟨m', [.gap k', .mark close], .cons (.gap hk) (.cons (.fixed _) .nil), by simp⟩
  | @some _ q k m₂ comma has =>
    refine ⟨.gap m :: .mark .comma :: .gap k :: (q ++ [.ending m₂ comma, .mark close]), ?_, by simp,
      fun qs' hqs => ?_⟩
    · simpa using Enclosed.some n m₂ comma (Listed.more m k ha has)
    · obtain ⟨m', rest, -, rfl, hrest⟩ := hqs.of_gap_cons
      obtain ⟨ps', rfl, hps⟩ := hrest.of_fixed_cons
      exact ⟨m', ps', hps, by simp⟩

/-- The end of a list in a loosened form has a comma or not. -/
theorem Loosened.of_ending {m : Nat} {comma : Option Nat} {qs : List Piece}
    (h : Loosened [.ending m comma, .mark close] qs) :
    (∃ m', lexemesOf qs = List.replicate m' .newline ++ [.mark close]) ∨
      ∃ m' k, lexemesOf qs = List.replicate m' .newline ++
        .mark .comma :: (List.replicate k .newline ++ [.mark close]) := by
  cases h with
  | cons hend hclose =>
    rw [Loosened.of_fixed hclose]
    cases hend with
    | @ending _ m' _ => exact .inl ⟨m', by simp⟩
    | @comma _ m' k _ => exact .inr ⟨m', k, by simp⟩
    | @behind _ m' _ k _ _ => exact .inr ⟨m', k, by simp⟩

end Lists

/-! ## What follows -/

/-- Line ends, commas and closing marks. Readers of expressions stop before each of them. -/
def Lexeme.isQuiet : Lexeme → Bool
  | .newline | .mark .comma | .mark .rightParen | .mark .rightBracket | .mark .rightBrace => true
  | _ => false

/-- The quiet lexemes, one by one. -/
theorem Lexeme.eq_of_isQuiet {l : Lexeme} (h : l.isQuiet = true) :
    l = .newline ∨ l = .mark .comma ∨ l = .mark .rightParen ∨ l = .mark .rightBracket ∨
      l = .mark .rightBrace := by
  revert h
  unfold Lexeme.isQuiet
  split <;> simp

theorem Lexeme.eq_mark_of_isMark {l : Lexeme} {m : Mark} (h : l.isMark m = true) :
    l = .mark m := by
  cases l <;> simp_all [Lexeme.isMark]

theorem Lexeme.eq_keyword_of_isKeyword {l : Lexeme} {k : Keyword} (h : l.isKeyword k = true) :
    l = .keyword k := by
  cases l <;> simp_all [Lexeme.isKeyword]

theorem Lexeme.isMark_of_isQuiet {l : Lexeme} {m : Mark} (h : l.isQuiet = true)
    (hm : (Lexeme.mark m).isQuiet = false) : l.isMark m = false := by
  cases hmark : l.isMark m with
  | false => rfl
  | true =>
    rw [Lexeme.eq_mark_of_isMark hmark, hm] at h
    cases h

theorem Lexeme.isKeyword_of_isQuiet {l : Lexeme} {k : Keyword} (h : l.isQuiet = true) :
    l.isKeyword k = false := by
  obtain rfl | rfl | rfl | rfl | rfl := Lexeme.eq_of_isQuiet h <;> rfl

def Lexeme.opens : Lexeme → Bool
  | .mark .leftParen | .mark .leftBracket | .mark .leftBrace => true
  | _ => false

theorem isQuiet_replicate {n : Nat} {r : List Lexeme} (h : (front r).isQuiet = true) :
    (front (List.replicate n .newline ++ r)).isQuiet = true := by
  cases n with
  | zero => exact h
  | succ n => rfl

/-- Before the end of a list stands a line end, a comma or the closing mark. -/
theorem Loosened.isQuiet_of_ending {m : Nat} {comma : Option Nat} {close : Mark} {qs : List Piece}
    {rest : List Lexeme} (h : Loosened [.ending m comma, .mark close] qs)
    (hclose : (Lexeme.mark close).isQuiet = true) :
    (front (lexemesOf qs ++ rest)).isQuiet = true := by
  obtain ⟨m', hqs⟩ | ⟨m', k, hqs⟩ := h.of_ending <;> rw [hqs, List.append_assoc]
  · exact isQuiet_replicate hclose
  · exact isQuiet_replicate rfl

/-- How what follows in one text relates to what follows in a loosened one. -/
abbrev Follow := List Lexeme → List Lexeme → Prop

namespace Follow

def any : Follow := fun _ _ => True

/-- The lexeme in front is the same, and so is the first one behind line ends. -/
def same : Follow := fun r r' =>
  front r' = front r ∧
    front (r'.dropWhile Lexeme.isNewline) = front (r.dropWhile Lexeme.isNewline)

/-- An expression ends before the one if it ends before the other. -/
def loose : Follow := fun r r' =>
  front r' = front r ∨ (front r).isQuiet = true ∧ (front r').isQuiet = true

/-- The same closing mark or comma is in front. -/
def closing : Follow := fun r r' => same r r' ∧ (front r).isQuiet = true

/-- The same lexeme is in front, and unless it is an opening mark, the next one tells the same about
what kind of statement this is. -/
def ahead : Follow := fun r r' =>
  same r r' ∧ ((front r).opens = true ∨ loose r.tail r'.tail)

def Through (l : Lexeme) (pre M : Follow) : Prop := ∀ r r', M r r' → pre (l :: r) (l :: r')

variable {l : Lexeme} {r r' : List Lexeme}

theorem same.loose (h : same r r') : loose r r' := .inl h.1

/-- A property that all quiet lexemes share is shared by what follows. -/
theorem loose.congr {β : Type} (test : Lexeme → β) {b : β} (h : loose r r')
    (hquiet : ∀ l : Lexeme, l.isQuiet = true → test l = b) : test (front r') = test (front r) := by
  obtain h | ⟨h, h'⟩ := h
  · rw [h]
  · rw [hquiet _ h, hquiet _ h']

/-- Texts that are loosely the same agree on marks that are not quiet. -/
theorem loose.isMark_eq {m : Mark} (h : loose r r') (hm : (Lexeme.mark m).isQuiet = false) :
    (front r').isMark m = (front r).isMark m :=
  h.congr _ fun _ hl => Lexeme.isMark_of_isQuiet hl hm

theorem loose.isKeyword_eq {k : Keyword} (h : loose r r') :
    (front r').isKeyword k = (front r).isKeyword k :=
  h.congr _ fun _ hl => Lexeme.isKeyword_of_isQuiet hl

theorem closing.same (h : closing r r') : same r r' := h.1

theorem ahead.same (h : ahead r r') : same r r' := h.1

/-- A reader that looks at nothing does not look beyond the next lexeme. -/
theorem through_any {M : Follow} : Through l any M := fun _ _ _ => trivial

theorem through_same_same : Through l same same := by
  intro r r' h
  refine ⟨rfl, ?_⟩
  cases hl : l.isNewline with
  | true => simpa [hl] using h.2
  | false => simp [hl]

theorem through_same {M : Follow} (hl : l.isNewline = false) : Through l same M :=
  fun _ _ _ => ⟨rfl, by simp [hl]⟩

theorem through_loose {M : Follow} : Through l loose M := fun _ _ _ => .inl rfl

theorem through_closing {M : Follow} {m : Mark} (hm : (Lexeme.mark m).isQuiet = true) :
    Through (.mark m) closing M :=
  fun r r' h => ⟨through_same rfl r r' h, hm⟩

theorem through_ahead (hl : l.isNewline = false) : Through l ahead loose :=
  fun r r' h => ⟨through_same hl r r' h, .inr h⟩

theorem through_ahead_same (hl : l.isNewline = false) : Through l ahead same :=
  fun r r' h => through_ahead hl r r' h.loose

/-- An opening mark tells the kind of statement, whatever follows it. -/
theorem through_ahead_of_opens (hl : l.opens = true) : Through l ahead any := by
  intro r r' h
  refine ⟨through_same ?_ r r' h, .inl hl⟩
  cases l <;> simp_all [Lexeme.opens, Lexeme.isNewline]

end Follow

namespace Parse

open Follow

variable {α β σ : Type} {P : Lexeme → Prop} {pre pre' : Follow} {post : α → Follow}
  {W : α → List Piece → Prop} {m m' : Parse α}

/-- A sequence reads a text if its parts read two stretches of it. -/
theorem bind_eq_ok {k : α → Parse β} {d : Nat} {s rest : Stream} {b : β} :
    (m >>= k) d s = .ok b rest ↔ ∃ a after, m d s = .ok a after ∧ k a d after = .ok b rest := by
  rw [bind_apply]
  cases m d s <;> simp

/-- What `m` reads can be cut into pieces of which `m'` reads every loosened form. -/
def LaysOut (P : Lexeme → Prop) (pre : Follow) (post : α → Follow) (W : α → List Piece → Prop)
    (m m' : Parse α) : Prop :=
  ∀ ⦃d : Nat⦄ ⦃s : Stream⦄ ⦃a : α⦄ ⦃rest : Stream⦄, P (front s.lexemes) → m d s = .ok a rest →
    ∃ ps, W a ps ∧ s.lexemes = lexemesOf ps ++ rest.lexemes ∧
      ∀ ps' rest', Loosened ps ps' → post a rest.lexemes rest' →
        pre s.lexemes (lexemesOf ps' ++ rest') ∧ Reads m' d (lexemesOf ps') a rest'

abbrev anywhere : Lexeme → Prop := fun _ => True

namespace LaysOut

theorem narrow {Q : Lexeme → Prop} (h : LaysOut Q pre post W m m') (hQ : ∀ l, P l → Q l) :
    LaysOut P pre post W m m' :=
  fun _ _ _ _ hP hm => h (hQ _ hP) hm

theorem at_any (h : LaysOut anywhere pre post W m m') : LaysOut P pre post W m m' :=
  h.narrow fun _ _ => trivial

/-- A reader that copes with looser texts copes with these. -/
theorem weaken (h : LaysOut P pre post W m m') (hpre : ∀ {r r'}, pre r r' → pre' r r') :
    LaysOut P pre' post W m m' := by
  intro d s a rest hP hm
  obtain ⟨ps, hW, hs, hps⟩ := h hP hm
  refine ⟨ps, hW, hs, fun ps' rest' hloose hpost => ?_⟩
  obtain ⟨hpre', hreads⟩ := hps ps' rest' hloose hpost
  exact ⟨hpre hpre', hreads⟩

/-- The reader before asks for nothing. -/
theorem behind_any (h : LaysOut P pre post W m m') : LaysOut P any post W m m' :=
  h.weaken fun _ => trivial

theorem strengthen {post' : α → Follow} (h : LaysOut P pre post W m m')
    (hpost : ∀ {a r r'}, post' a r r' → post a r r') : LaysOut P pre post' W m m' := by
  intro d s a rest hP hm
  obtain ⟨ps, hW, hs, hps⟩ := h hP hm
  exact ⟨ps, hW, hs, fun ps' rest' hloose hpost' => hps ps' rest' hloose (hpost hpost')⟩

/-- A reader that ends with a mark of its own does not care what follows. -/
theorem self_ending (h : LaysOut P pre (fun _ => any) W m m') : LaysOut P pre post W m m' :=
  h.strengthen fun _ => trivial

theorem mono {W' : α → List Piece → Prop} (h : LaysOut P pre post W m m')
    (hW : ∀ {a ps}, W a ps → W' a ps) : LaysOut P pre post W' m m' := by
  intro d s a rest hP hm
  obtain ⟨ps, hps, hrest⟩ := h hP hm
  exact ⟨ps, hW hps, hrest⟩

theorem pure {a : α} (hpre : ∀ {r r'}, post a r r' → pre r r') (h : W a []) :
    LaysOut P pre post W (Pure.pure a) (Pure.pure a) := by
  intro d s b rest _ hm
  obtain ⟨rfl, rfl⟩ : a = b ∧ s = rest := by simpa using hm
  refine ⟨[], h, rfl, fun ps' rest' hloose hpost => ?_⟩
  obtain rfl := List.forall₂_nil_left_iff.mp hloose
  exact ⟨hpre hpost, .pure⟩

/-- Readers in a row lay out one stretch after the other. -/
theorem bind {W : β → List Piece → Prop} {V : α → List Piece → Prop} {M : α → Follow}
    {post : β → Follow} {k k' : α → Parse β} (hm : LaysOut P pre M V m m')
    (hk : ∀ a p, V a p →
      LaysOut anywhere (M a) post (fun b q => W b (p ++ q)) (k a) (k' a)) :
    LaysOut P pre post W (m >>= k) (m' >>= k') := by
  intro d s b rest hP h
  obtain ⟨a, after, hread, h⟩ := bind_eq_ok.mp h
  obtain ⟨p, hV, hs, hp⟩ := hm hP hread
  obtain ⟨q, hW, hafter, hq⟩ := hk a p hV trivial h
  refine ⟨p ++ q, hW, by rw [hs, hafter, lexemesOf_append, List.append_assoc], ?_⟩
  intro ps' rest' hloose hpost
  obtain ⟨p', q', rfl, hp', hq'⟩ := hloose.of_append
  obtain ⟨hM, hsecond⟩ := hq q' rest' hq' hpost
  obtain ⟨hpre, hfirst⟩ := hp p' _ hp' hM
  rw [lexemesOf_append, List.append_assoc]
  exact ⟨hpre, hfirst.bind hsecond⟩

theorem bind_pure {a : α} {W : β → List Piece → Prop} {post : β → Follow} {k k' : α → Parse β}
    (h : LaysOut P pre post W (k a) (k' a)) :
    LaysOut P pre post W (Pure.pure a >>= k) (Pure.pure a >>= k') := h

theorem map {W : β → List Piece → Prop} {post : β → Follow} {f : α → β}
    (h : LaysOut P pre (fun a => post (f a)) (fun a => W (f a)) m m') :
    LaysOut P pre post W (f <$> m) (f <$> m') := by
  rw [map_eq_pure_bind, map_eq_pure_bind]
  exact h.bind fun a p hp => LaysOut.pure id (by rwa [List.append_nil])

theorem bind_map {γ : Type} {W : γ → List Piece → Prop} {post : γ → Follow} {f : α → β}
    {k k' : β → Parse γ}
    (h : LaysOut P pre post W (m >>= fun a => k (f a)) (m' >>= fun a => k' (f a))) :
    LaysOut P pre post W (f <$> m >>= k) (f <$> m' >>= k') := by
  rwa [bind_map_left, bind_map_left]

/-- A reader whose result is only changed. -/
theorem bind_return {W : β → List Piece → Prop} {post : β → Follow} {f : α → β}
    (h : LaysOut P pre (fun a => post (f a)) (fun a => W (f a)) m m') :
    LaysOut P pre post W (m >>= fun a => Pure.pure (f a)) (m' >>= fun a => Pure.pure (f a)) :=
  h.bind fun a p hp => LaysOut.pure id (by rwa [List.append_nil])

/-- What is in front of a reader is in front of the pieces, if there are any lexemes in them. -/
theorem front_mem (h : LaysOut P pre post W m m') :
    LaysOut P pre post (fun a p => W a p ∧ (lexemesOf p ≠ [] → P (front (lexemesOf p)))) m m' := by
  intro d s a rest hP hm
  obtain ⟨ps, hW, hs, hps⟩ := h hP hm
  refine ⟨ps, ⟨hW, fun hne => ?_⟩, hs, hps⟩
  rwa [hs, front_append_of_ne_nil hne] at hP

theorem ite {c : Prop} [Decidable c] {n n' : Parse α} (h : c → LaysOut P pre post W m m')
    (h' : ¬c → LaysOut P pre post W n n') :
    LaysOut P pre post W (if c then m else n) (if c then m' else n') := by
  split
  next hc => exact h hc
  next hc => exact h' hc

theorem nested (h : LaysOut P pre post W m m') : LaysOut P pre post W m.nested m'.nested := by
  intro d s a rest hP hm
  obtain ⟨ps, hW, hs, hps⟩ := h hP hm
  exact ⟨ps, hW, hs, hps⟩

end LaysOut

/-- A reader that gives nothing lays out nothing. -/
theorem laysOut_of_ne_ok (h : ∀ d s a rest, m d s ≠ .ok a rest) : LaysOut P pre post W m m' :=
  fun d s a rest _ hm => absurd hm (h d s a rest)

theorem laysOut_fail {fault : Diagnostic} : LaysOut P pre post W (fail fault) m' :=
  laysOut_of_ne_ok fun _ _ _ _ h => by cases h

theorem unexpected_ne_ok {expected : String} {d : Nat} {s rest : Stream} {a : α} :
    unexpected expected d s ≠ .ok a rest := by
  intro h
  simp only [unexpected, bind_apply, token] at h
  cases hl : s.head.lexeme <;> rw [hl] at h <;> cases h

theorem laysOut_advance_fail {fault : Diagnostic} :
    LaysOut P pre post W (advance >>= fun _ => fail fault) m' :=
  laysOut_of_ne_ok fun _ _ _ _ h => by cases h

theorem laysOut_unexpected {expected : String} :
    LaysOut P pre post W (unexpected expected) m' :=
  laysOut_of_ne_ok fun _ _ _ _ => unexpected_ne_ok

theorem laysOut_depth {k k' : Nat → Parse α} (h : ∀ n, LaysOut P pre post W (k n) (k' n)) :
    LaysOut P pre post W (depth >>= k) (depth >>= k') := by
  intro d s a rest hP hm
  obtain ⟨ps, hW, hs, hps⟩ := h d hP hm
  exact ⟨ps, hW, hs, hps⟩

/-- Looking ahead and going back makes no difference. -/
theorem laysOut_revisit {k k' : Parse α} (h : LaysOut P pre post W k k') :
    LaysOut P pre post W (revisit >>= fun _ => k) (revisit >>= fun _ => k') :=
  h

/-! ## Looking ahead -/

/-- Readers that go by the lexeme in front. Where the two texts differ there, they do the same. -/
theorem laysOut_peek_congr {k k' : Lexeme → Parse α}
    (hpre : ∀ {r r'}, pre r r' → k' (front r') = k' (front r))
    (h : ∀ l, P l → LaysOut (· = l) pre post W (k l) (k' l)) :
    LaysOut P pre post W (peek >>= k) (peek >>= k') := by
  intro d s a rest hP hm
  have hread : k (front s.lexemes) d s = .ok a rest := by
    rw [← s.head_lexeme]
    exact hm
  obtain ⟨ps, hW, hs, hps⟩ := h _ hP rfl hread
  refine ⟨ps, hW, hs, fun ps' rest' hloose hpost => ?_⟩
  obtain ⟨hfollow, hreads⟩ := hps ps' rest' hloose hpost
  exact ⟨hfollow, reads_peek.bind_nil (hpre hfollow ▸ hreads)⟩

/-- A reader may branch on the next lexeme, if the looser text has the same one. -/
theorem laysOut_peek {k k' : Lexeme → Parse α} (hpre : ∀ {r r'}, pre r r' → front r' = front r)
    (h : ∀ l, P l → LaysOut (· = l) pre post W (k l) (k' l)) :
    LaysOut P pre post W (peek >>= k) (peek >>= k') :=
  laysOut_peek_congr (fun hfollow => congrArg k' (hpre hfollow)) h

/-- Two readers that look at a token where the place of the token matters in diagnostics only. -/
theorem laysOut_token {k k' : Token → Parse α} (hpre : ∀ {r r'}, pre r r' → front r' = front r)
    (hplace : ∀ t t' : Token, t'.lexeme = t.lexeme → ∀ d s a rest,
      k' t d s = .ok a rest → k' t' d s = .ok a rest)
    (h : ∀ t, LaysOut (· = t.lexeme) pre post W (k t) (k' t)) :
    LaysOut P pre post W (token >>= k) (token >>= k') := by
  intro d s a rest _ hm
  have hread : k s.head d s = .ok a rest := hm
  obtain ⟨ps, hW, hs, hps⟩ := h s.head s.head_lexeme.symm hread
  refine ⟨ps, hW, hs, fun ps' rest' hloose hpost => ?_⟩
  obtain ⟨hfollow, hreads⟩ := hps ps' rest' hloose hpost
  refine ⟨hfollow, reads_token_bind fun t ht s' hs' => ?_⟩
  exact hplace s.head t (by rw [ht, hpre hfollow, s.head_lexeme]) d s' a _ (hreads s' hs')

/-- Looking at the second lexeme. The two texts may differ there, but not in what it tells. -/
theorem laysOut_peekSecond {l : Lexeme} {k k' : Lexeme → Parse α}
    (h : ∀ second, LaysOut (· = l) ahead post W (k second) (k' second))
    (hsame : ∀ x y : Lexeme, l.opens = true ∨ y = x ∨ x.isQuiet = true ∧ y.isQuiet = true →
      k' y = k' x) :
    LaysOut (· = l) ahead post W (peekSecond >>= k) (peekSecond >>= k') := by
  intro d s a rest hl hm
  have hread : k (front s.lexemes.tail) d s = .ok a rest := by
    rw [← s.second_lexeme]
    exact hm
  obtain ⟨ps, hW, hs, hps⟩ := h _ hl hread
  refine ⟨ps, hW, hs, fun ps' rest' hloose hpost => ?_⟩
  obtain ⟨hfollow, hreads⟩ := hps ps' rest' hloose hpost
  refine ⟨hfollow, reads_peekSecond.bind_nil ?_⟩
  have hkind := hfollow.2
  rw [hl] at hkind
  rwa [hsame _ _ hkind]

/-! ## Single lexemes -/

variable {l : Lexeme} {mark : Mark} {keyword : Keyword} {M : Follow}

theorem lexemes_eq_cons {s : Stream} (h : front s.lexemes = l) (hl : l.isEof = false) :
    s.lexemes = l :: s.tail.lexemes := by
  cases htokens : s.tokens with
  | nil =>
    obtain rfl : .eof = l := by simpa [Stream.lexemes, htokens, front] using h
    cases hl
  | cons t ts => simp_all [Stream.lexemes, Stream.tail, front]

/-- The next lexeme becomes a piece of its own. -/
theorem laysOut_advance {k k' : Unit → Parse α} (hl : l.isEof = false) (hthrough : Through l pre M)
    (hk : LaysOut anywhere M post (fun a q => W a (.fixed l :: q)) (k ()) (k' ())) :
    LaysOut (· = l) pre post W (advance >>= k) (advance >>= k') := by
  intro d s a rest hfront hm
  have hs := lexemes_eq_cons hfront hl
  have hread : k () d s.tail = .ok a rest := hm
  obtain ⟨ps, hW, htail, hps⟩ := hk trivial hread
  refine ⟨.fixed l :: ps, hW, by simp [hs, htail], fun ps' rest' hloose hpost => ?_⟩
  obtain ⟨qs, rfl, hqs⟩ := hloose.of_fixed_cons
  obtain ⟨hfollow, hreads⟩ := hps qs rest' hqs hpost
  rw [hs]
  exact ⟨hthrough _ _ hfollow, reads_advance.bind_one hreads⟩

theorem laysOut_advance_last (hl : l.isEof = false) (hthrough : Through l pre M) :
    LaysOut (· = l) pre (fun _ => M) (fun _ p => p = [.fixed l]) advance advance := by
  rw [← bind_pure advance]
  exact laysOut_advance hl hthrough (LaysOut.pure id rfl)

theorem laysOut_atMark {k k' : Bool → Parse α}
    (hpre : ∀ {r r'}, pre r r' → (front r').isMark mark = (front r).isMark mark)
    (htrue : LaysOut (· = .mark mark) pre post W (k true) (k' true))
    (hfalse : LaysOut P pre post W (k false) (k' false)) :
    LaysOut P pre post W (atMark mark >>= k) (atMark mark >>= k') := by
  change LaysOut P pre post W (peek >>= fun l => k (l.isMark mark))
    (peek >>= fun l => k' (l.isMark mark))
  refine laysOut_peek_congr (fun h => congrArg k' (hpre h)) fun l hl => ?_
  cases hmark : l.isMark mark with
  | true => exact Lexeme.eq_mark_of_isMark hmark ▸ htrue
  | false => exact hfalse.narrow fun _ h => h ▸ hl

theorem laysOut_atKeyword {k k' : Bool → Parse α}
    (hpre : ∀ {r r'}, pre r r' → (front r').isKeyword keyword = (front r).isKeyword keyword)
    (htrue : LaysOut (· = .keyword keyword) pre post W (k true) (k' true))
    (hfalse : LaysOut (fun l => P l ∧ l.isKeyword keyword = false) pre post W (k false)
      (k' false)) :
    LaysOut P pre post W (atKeyword keyword >>= k) (atKeyword keyword >>= k') := by
  change LaysOut P pre post W (peek >>= fun l => k (l.isKeyword keyword))
    (peek >>= fun l => k' (l.isKeyword keyword))
  refine laysOut_peek_congr (fun h => congrArg k' (hpre h)) fun l hl => ?_
  cases hkeyword : l.isKeyword keyword with
  | true => exact Lexeme.eq_keyword_of_isKeyword hkeyword ▸ htrue
  | false => exact hfalse.narrow fun _ h => h ▸ ⟨hl, hkeyword⟩

/-- A mark that may be left out is a piece where it is there. -/
theorem laysOut_takeMark {k k' : Bool → Parse α} (hpre : ∀ {r r'}, pre r r' → front r' = front r)
    (hthrough : Through (.mark mark) pre M)
    (htrue : LaysOut anywhere M post (fun a q => W a (.mark mark :: q)) (k true) (k' true))
    (hfalse : LaysOut P pre post W (k false) (k' false)) :
    LaysOut P pre post W (takeMark mark >>= k) (takeMark mark >>= k') := by
  have heq (k : Bool → Parse α) : takeMark mark >>= k =
      atMark mark >>= fun found => if found then advance >>= fun _ => k true else k false := by
    rw [takeMark, bind_assoc]
    congr
    funext found
    cases found <;> simp
  rw [heq, heq]
  exact laysOut_atMark (fun h => by rw [hpre h]) (laysOut_advance rfl hthrough htrue) hfalse

section Tests

variable {n n' : Parse α} (hpre : ∀ {r r'}, pre r r' → front r' = front r)

include hpre

theorem laysOut_atMark_ite (h : LaysOut (· = .mark mark) pre post W m m')
    (h' : LaysOut P pre post W n n') :
    LaysOut P pre post W (do if ← atMark mark then m else n)
      (do if ← atMark mark then m' else n') :=
  laysOut_atMark (fun h => by rw [hpre h]) h h'

theorem laysOut_atKeyword_ite (h : LaysOut (· = .keyword keyword) pre post W m m')
    (h' : LaysOut (fun l => P l ∧ l.isKeyword keyword = false) pre post W n n') :
    LaysOut P pre post W (do if ← atKeyword keyword then m else n)
      (do if ← atKeyword keyword then m' else n') :=
  laysOut_atKeyword (fun h => by rw [hpre h]) h h'

theorem laysOut_takeMark_ite (hthrough : Through (.mark mark) pre M)
    (h : LaysOut anywhere M post (fun a q => W a (.mark mark :: q)) m m')
    (h' : LaysOut P pre post W n n') :
    LaysOut P pre post W (do if ← takeMark mark then m else n)
      (do if ← takeMark mark then m' else n') :=
  laysOut_takeMark hpre hthrough h h'

end Tests

/-- A reader that takes one lexeme off the front, of a kind that gives its result. -/
theorem laysOut_single {kind : Lexeme → α → Prop}
    (hm : ∀ {d s a rest}, m d s = .ok a rest → ∃ l, kind l a ∧ s.lexemes = l :: rest.lexemes)
    (hm' : ∀ {l a d rest}, kind l a → Reads m' d [l] a rest)
    (hthrough : ∀ {l a}, kind l a → Through l pre M) :
    LaysOut P pre (fun _ => M) (fun a p => ∃ l, kind l a ∧ p = [.fixed l]) m m' := by
  intro d s a rest _ h
  obtain ⟨l, hl, hs⟩ := hm h
  refine ⟨[.fixed l], ⟨l, hl, rfl⟩, hs, fun ps' rest' hloose hM => ?_⟩
  obtain ⟨qs, rfl, hqs⟩ := hloose.of_fixed_cons
  obtain rfl := List.forall₂_nil_left_iff.mp hqs
  rw [hs]
  exact ⟨hthrough hl _ _ hM, hm' hl⟩

variable {d : Nat} {s rest : Stream}

theorem lexemes_of_expectMark (h : expectMark mark d s = .ok () rest) :
    s.lexemes = .mark mark :: rest.lexemes := by
  change (if s.head.lexeme.isMark mark then advance else unexpected mark.spelling) d s = _ at h
  split at h
  next hmark =>
    rw [s.head_lexeme] at hmark
    cases h
    exact lexemes_eq_cons (Lexeme.eq_mark_of_isMark hmark) rfl
  next => exact absurd h unexpected_ne_ok

/-- A mark is taken in if it is there, and otherwise nothing is. -/
theorem lexemes_of_takeMark {taken : Bool} (h : takeMark mark d s = .ok taken rest) :
    taken = true ∧ s.lexemes = .mark mark :: rest.lexemes ∨
      taken = false ∧ rest = s ∧ (front s.lexemes).isMark mark = false := by
  obtain ⟨found, after, hat, h⟩ := bind_eq_ok.mp h
  rw [atMark_apply] at hat
  cases hat
  rw [s.head_lexeme] at h
  cases hmark : (front s.lexemes).isMark mark with
  | true =>
    rw [hmark] at h
    cases h
    exact .inl ⟨rfl, lexemes_eq_cons (Lexeme.eq_mark_of_isMark hmark) rfl⟩
  | false =>
    rw [hmark] at h
    cases h
    exact .inr ⟨rfl, rfl, rfl⟩

theorem lexemes_of_expectKeyword {expected : String}
    (h : expectKeyword keyword expected d s = .ok () rest) :
    s.lexemes = .keyword keyword :: rest.lexemes := by
  change (if s.head.lexeme.isKeyword keyword then advance else unexpected expected) d s = _ at h
  split at h
  next hkeyword =>
    rw [s.head_lexeme] at hkeyword
    cases h
    exact lexemes_eq_cons (Lexeme.eq_keyword_of_isKeyword hkeyword) rfl
  next => exact absurd h unexpected_ne_ok

theorem lexemes_of_expectName {expected word : String}
    (h : expectName expected d s = .ok word rest) :
    ∃ l, l.word? = some word ∧ s.lexemes = l :: rest.lexemes := by
  simp only [expectName, bind_apply, peek] at h
  rw [s.head_lexeme] at h
  cases hl : front s.lexemes
  case name w =>
    rw [hl] at h
    cases h
    exact ⟨_, rfl, lexemes_eq_cons hl rfl⟩
  case keyword k =>
    rw [hl] at h
    cases h
    exact ⟨_, rfl, lexemes_eq_cons hl rfl⟩
  all_goals
    rw [hl] at h
    exact absurd h unexpected_ne_ok

theorem laysOut_exact {m m' : Parse Unit} {k k' : Unit → Parse α}
    (hm : ∀ {d s rest}, m d s = .ok () rest → s.lexemes = l :: rest.lexemes)
    (hm' : ∀ {d rest}, Reads m' d [l] () rest) (hthrough : Through l pre M)
    (hk : LaysOut anywhere M post (fun a q => W a (.fixed l :: q)) (k ()) (k' ())) :
    LaysOut P pre post W (m >>= k) (m' >>= k') := by
  have hsingle : LaysOut P pre (fun _ => M) (fun _ p => ∃ l', l' = l ∧ p = [.fixed l']) m m' := by
    refine laysOut_single (fun h => ⟨l, rfl, hm h⟩) ?_ ?_
    · rintro _ _ _ _ rfl
      exact hm'
    · rintro _ _ rfl
      exact hthrough
  refine hsingle.bind ?_
  rintro _ _ ⟨_, rfl, rfl⟩
  exact hk

/-- A mark that must be there is a piece of its own. -/
theorem laysOut_expectMark {k k' : Unit → Parse α} (hthrough : Through (.mark mark) pre M)
    (hk : LaysOut anywhere M post (fun a q => W a (.mark mark :: q)) (k ()) (k' ())) :
    LaysOut P pre post W (expectMark mark >>= k) (expectMark mark >>= k') :=
  laysOut_exact lexemes_of_expectMark reads_expectMark hthrough hk

theorem laysOut_expectKeyword {expected : String} {k k' : Unit → Parse α}
    (hthrough : Through (.keyword keyword) pre M)
    (hk : LaysOut anywhere M post (fun a q => W a (.keyword keyword :: q)) (k ()) (k' ())) :
    LaysOut P pre post W (expectKeyword keyword expected >>= k)
      (expectKeyword keyword expected >>= k') :=
  laysOut_exact lexemes_of_expectKeyword reads_expectKeyword hthrough hk

theorem isNewline_of_word? {word : String} (h : l.word? = some word) : l.isNewline = false := by
  cases l <;> simp_all [Lexeme.word?, Lexeme.isNewline]

theorem laysOut_expectName {expected : String}
    (hthrough : ∀ {l : Lexeme}, l.isNewline = false → Through l pre M) :
    LaysOut P pre (fun _ => M) Named (expectName expected) (expectName expected) := by
  refine LaysOut.mono (laysOut_single lexemes_of_expectName reads_expectName fun h =>
    hthrough (isNewline_of_word? h)) ?_
  rintro word _ ⟨l, hl, rfl⟩
  exact .mk hl

theorem laysOut_expectVariable {expected : String} :
    LaysOut P same (fun _ => any) Variable (expectVariable expected) (expectVariable expected) := by
  refine laysOut_atMark_ite And.left ?_ laysOut_unexpected
  refine laysOut_advance rfl (through_same rfl) (LaysOut.mono (laysOut_expectName through_same) ?_)
  rintro word _ ⟨hl⟩
  exact .mk hl

/-! ## Line ends -/

/-- What is skipped is of one kind, and what follows is not. -/
theorem lexemes_of_skipWhile {kind : Lexeme → Bool} (h : skipWhile kind d s = .ok () rest) :
    ∃ ls : List Lexeme, (∀ l ∈ ls, kind l = true) ∧ s.lexemes = ls ++ rest.lexemes ∧
      (kind .eof = false → kind (front rest.lexemes) = false) := by
  have hrest : rest.lexemes = s.lexemes.dropWhile kind := by
    cases h
    exact s.lexemes_dropWhile kind
  refine ⟨s.lexemes.takeWhile kind, ?_, ?_, fun heof => ?_⟩
  · exact List.all_eq_true.mp List.all_takeWhile
  · rw [hrest, List.takeWhile_append_dropWhile]
  · rw [hrest]
    cases hdrop : s.lexemes.dropWhile kind with
    | nil => exact heof
    | cons l ls =>
      have hhead := List.head?_dropWhile_not kind s.lexemes
      simpa [hdrop] using hhead

/-- As `reads_skipWhile`, with something to pass over. -/
theorem reads_skipWhile_append {kind : Lexeme → Bool} {ls after : List Lexeme}
    (hls : ∀ l ∈ ls, kind l = true) (hafter : kind (front after) = false) :
    Reads (skipWhile kind) d ls () after := by
  intro s hs
  have htake : (s.tokens.take ls.length).map Token.lexeme = ls := by
    rw [List.map_take]
    exact (congrArg (List.take ls.length) hs).trans (by simp)
  have hskip : ∀ t ∈ s.tokens.take ls.length, kind t.lexeme = true := fun t ht =>
    hls _ (htake ▸ List.mem_map_of_mem ht)
  have hstay := reads_skipWhile (d := d) hafter (s.drop ls.length) (by simp [hs])
  have hstay : (s.tokens.drop ls.length).dropWhile (kind ·.lexeme) = s.tokens.drop ls.length := by
    simpa [skipWhile_apply, Stream.dropWhile, Stream.drop] using hstay
  have hdrop : s.tokens.dropWhile (kind ·.lexeme) = s.tokens.drop ls.length := by
    conv_lhs => rw [← List.take_append_drop ls.length s.tokens]
    rw [List.dropWhile_append_of_pos hskip, hstay]
  rw [skipWhile_apply, Stream.dropWhile, hdrop]
  rfl

variable {kind : Lexeme → Bool}

theorem same_append {ls r r' : List Lexeme} (h : same r r') : same (ls ++ r) (ls ++ r') := by
  induction ls with
  | nil => exact h
  | cons l ls ih => exact through_same_same _ _ ih

/-- Lexemes that are passed over and stand as they are. -/
theorem laysOut_skipWhile (heof : kind .eof = false) :
    LaysOut P same (fun _ => same) (fun _ => Stretch kind) (skipWhile kind) (skipWhile kind) := by
  intro d s _ rest _ h
  obtain ⟨ls, hls, hs, hstop⟩ := lexemes_of_skipWhile h
  refine ⟨ls.map .fixed, ⟨ls, hls, rfl⟩, by rw [lexemesOf_map_fixed, hs], ?_⟩
  intro ps' rest' hloose hsame
  rw [hloose.of_map_fixed, lexemesOf_map_fixed, hs]
  exact ⟨same_append hsame, reads_skipWhile_append hls (hsame.1 ▸ hstop heof)⟩

/-- Line breaks that are skipped form a stretch, which may get longer. -/
theorem laysOut_skipNewlines :
    LaysOut P same (fun _ => same) (fun _ => Stretch Lexeme.isNewline) skipNewlines skipNewlines :=
  laysOut_skipWhile rfl

theorem laysOut_skipSeparators :
    LaysOut P same (fun _ => same) (fun _ => Stretch isSeparator) skipSeparators skipSeparators :=
  laysOut_skipWhile rfl

theorem lexemes_of_skipNewlines (h : skipNewlines d s = .ok () rest) :
    ∃ n, s.lexemes = List.replicate n .newline ++ rest.lexemes ∧
      (front rest.lexemes).isNewline = false := by
  obtain ⟨ls, hls, hs, hstop⟩ := lexemes_of_skipWhile h
  refine ⟨ls.length, ?_, hstop rfl⟩
  have hnewline : ∀ l ∈ ls, l = .newline := fun l hl => by
    have := hls l hl
    cases l <;> simp_all [Lexeme.isNewline]
  rw [hs, ← List.eq_replicate_of_mem hnewline]

theorem reads_newlines {n : Nat} {after : List Lexeme} (h : (front after).isNewline = false) :
    Reads skipNewlines d (List.replicate n .newline) () after :=
  reads_skipWhile_append (fun _ hl => by rw [List.eq_of_mem_replicate hl]; rfl) h

/-- A gap may be widened where the reader behind it does not notice. -/
theorem laysOut_gap_of {k k' : Unit → Parse α} (hfront : ∀ {r r'}, M r r' → front r' = front r)
    (hpre : ∀ {n n' : Nat} {r r'}, n ≤ n' → M r r' →
      pre (List.replicate n .newline ++ r) (List.replicate n' .newline ++ r'))
    (hk : ∀ n, LaysOut anywhere M post (fun a q => W a (.gap n :: q)) (k ()) (k' ())) :
    LaysOut P pre post W (skipNewlines >>= k) (skipNewlines >>= k') := by
  have hgap : LaysOut P pre (fun _ => M) (fun _ p => ∃ n, p = [.gap n]) skipNewlines
      skipNewlines := by
    intro d s _ rest _ h
    obtain ⟨n, hs, hstop⟩ := lexemes_of_skipNewlines h
    refine ⟨[.gap n], ⟨n, rfl⟩, by simp [hs], fun ps' rest' hloose hM => ?_⟩
    obtain ⟨n', qs, hle, rfl, hqs⟩ := hloose.of_gap_cons
    obtain rfl := List.forall₂_nil_left_iff.mp hqs
    rw [hs, lexemesOf_cons, lexemesOf_nil, List.append_nil]
    exact ⟨hpre hle hM, reads_newlines (hfront hM ▸ hstop)⟩
  refine hgap.bind ?_
  rintro _ _ ⟨n, rfl⟩
  exact hk n

/-- A gap behind an opening mark, a comma or a colon. -/
theorem laysOut_gap {k k' : Unit → Parse α}
    (hk : ∀ n, LaysOut anywhere same post (fun a q => W a (.gap n :: q)) (k ()) (k' ())) :
    LaysOut P any post W (skipNewlines >>= k) (skipNewlines >>= k') :=
  laysOut_gap_of And.left (fun _ _ => trivial) hk

theorem loose_replicate {n n' : Nat} {r r' : List Lexeme} (hle : n ≤ n') (h : closing r r') :
    loose (List.replicate n .newline ++ r) (List.replicate n' .newline ++ r') := by
  cases n with
  | zero =>
    cases n' with
    | zero => exact h.same.loose
    | succ n' => exact .inr ⟨h.2, rfl⟩
  | succ n =>
    obtain ⟨n', rfl⟩ : ∃ k, n' = k + 1 := ⟨n' - 1, by omega⟩
    exact .inl rfl

/-- A gap before a closing mark or a comma. -/
theorem laysOut_gap_closing {k k' : Unit → Parse α}
    (hk : ∀ n, LaysOut anywhere closing post (fun a q => W a (.gap n :: q)) (k ()) (k' ())) :
    LaysOut P loose post W (skipNewlines >>= k) (skipNewlines >>= k') :=
  laysOut_gap_of (fun h => h.1.1) loose_replicate hk

/-! ## Loops -/

inductive Runs (V : σ → Round σ β → List Piece → Prop) : σ → β → List Piece → Prop
  | done {state : σ} {b : β} {p : List Piece} : V state (.done b) p → Runs V state b p
  | more {state next : σ} {b : β} {p q : List Piece} : V state (.more next) p → Runs V next b q →
    Runs V state b (p ++ q)

/-- What a round asks for: behind the last one, what the loop asks for. -/
def Round.follow (between : Follow) (post : β → Follow) : Round σ β → Follow
  | .more _ => between
  | .done b => post b

section Loops

variable {round round' : σ → Parse (Round σ β)} {between : Follow} {post : β → Follow}
  {V : σ → Round σ β → List Piece → Prop}
  (hround : ∀ state, LaysOut anywhere between (Round.follow between post) (V state) (round state)
    (round' state))
  (hne : ∀ {state next p}, V state (.more next) p → lexemesOf p ≠ [])

include hround hne

/-- The rounds of a loop lay out its text round by round. -/
theorem iterates_of_rounds {n : Nat} {state : σ} {b : β}
    (h : rounds round n state d s = .ok b rest) :
    ∃ ps, Runs V state b ps ∧ s.lexemes = lexemesOf ps ++ rest.lexemes ∧
      ∀ ps' rest', Loosened ps ps' → post b rest.lexemes rest' →
        between s.lexemes (lexemesOf ps' ++ rest') ∧
          Iterates round' d state (lexemesOf ps') b rest' := by
  induction n generalizing state s with
  | zero => cases h
  | succ n ih =>
    obtain ⟨turn, after, hread, h⟩ := bind_eq_ok.mp h
    obtain ⟨p, hV, hs, hp⟩ := hround state trivial hread
    cases turn with
    | done b' =>
      obtain ⟨rfl, rfl⟩ : b' = b ∧ after = rest := by simpa using h
      refine ⟨p, .done hV, hs, fun ps' rest' hloose hpost => ?_⟩
      obtain ⟨hfollow, hreads⟩ := hp ps' rest' hloose hpost
      exact ⟨hfollow, .done hreads⟩
    | more next =>
      obtain ⟨q, hq, hafter, hlater⟩ := ih h
      refine ⟨p ++ q, .more hV hq, by simp [hs, hafter], fun ps' rest' hloose hpost => ?_⟩
      obtain ⟨p', q', rfl, hp', hq'⟩ := hloose.of_append
      obtain ⟨hfollow, hiterates⟩ := hlater q' rest' hq' hpost
      obtain ⟨hstart, hreads⟩ := hp p' _ hp' hfollow
      rw [lexemesOf_append, List.append_assoc]
      exact ⟨hstart, .more hreads (hp'.ne_nil (hne hV)) hiterates⟩

/-- A loop whose rounds can be laid out can be laid out, if a round that goes on takes a lexeme. -/
theorem laysOut_loop {init : σ} :
    LaysOut P between post (Runs V init) (loop init round) (loop init round') := by
  intro d s b rest _ h
  rw [loop_apply] at h
  obtain ⟨ps, hruns, hs, hps⟩ := iterates_of_rounds hround hne h
  refine ⟨ps, hruns, hs, fun ps' rest' hloose hpost => ?_⟩
  obtain ⟨hfollow, hiterates⟩ := hps ps' rest' hloose hpost
  exact ⟨hfollow, hiterates.reads⟩

end Loops

end Parse

end RouteScript
