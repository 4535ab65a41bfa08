import RouteScript.Syntax.Parse

/-!
# What a reader reads

`m.Reads d ls a rest` says that at depth `d` the reader `m` takes exactly the lexemes `ls` off every
stream that goes on with `rest`, and gives `a`. Places do not matter. The rules below follow the
combinators of readers; a loop is unrolled by `Iterates`.
-/

namespace RouteScript

namespace Stream

def lexemes (s : Stream) : List Lexeme := s.tokens.map Token.lexeme

/-- The stream without its first `n` tokens. -/
def drop (n : Nat) (s : Stream) : Stream := { s with tokens := s.tokens.drop n }

@[simp] theorem drop_zero (s : Stream) : s.drop 0 = s := rfl

@[simp] theorem drop_drop (m n : Nat) (s : Stream) : (s.drop m).drop n = s.drop (m + n) := by
  simp [drop]

theorem tail_eq_drop (s : Stream) : s.tail = s.drop 1 := by
  simp [tail, drop]

/-- Dropping tokens drops their lexemes. -/
@[simp] theorem lexemes_drop (n : Nat) (s : Stream) : (s.drop n).lexemes = s.lexemes.drop n := by
  simp [lexemes, drop]

theorem lexemes_dropWhile (p : Lexeme → Bool) (s : Stream) :
    (s.dropWhile p).lexemes = s.lexemes.dropWhile p := by
  simp [lexemes, dropWhile, List.dropWhile_map, Function.comp_def]

theorem length_lexemes (s : Stream) : s.lexemes.length = s.length := by
  simp [lexemes, length]

end Stream

/-- The first of some lexemes; behind the last one the source ends. -/
def front (ls : List Lexeme) : Lexeme := ls.headD .eof

@[simp] theorem front_nil : front [] = .eof := rfl

@[simp] theorem front_cons (l : Lexeme) (ls : List Lexeme) : front (l :: ls) = l := rfl

theorem front_append_of_ne_nil {ls : List Lexeme} (h : ls ≠ []) (rest : List Lexeme) :
    front (ls ++ rest) = front ls := by
  cases ls with
  | nil => exact absurd rfl h
  | cons l ls => rfl

def Lexeme.word? : Lexeme → Option String
  | .name word => some word
  | .keyword k => some k.spelling
  | _ => none

theorem Stream.head_lexeme (s : Stream) : s.head.lexeme = front s.lexemes := by
  cases h : s.tokens <;> simp [Stream.head, Stream.lexemes, front, h]

theorem Stream.second_lexeme (s : Stream) : s.second.lexeme = front s.lexemes.tail := by
  match h : s.tokens with
  | [] => simp [Stream.second, Stream.lexemes, front, h]
  | [_] => simp [Stream.second, Stream.lexemes, front, h]
  | _ :: _ :: _ => simp [Stream.second, Stream.lexemes, front, h]

namespace Parse

variable {α β σ : Type} {d : Nat} {a : α} {b : β} {ls l₁ l₂ rest : List Lexeme}

@[simp] theorem pure_apply (a : α) (d : Nat) (s : Stream) :
    (pure a : Parse α) d s = .ok a s := rfl

/-- A sequence goes on where its first part has stopped. -/
theorem bind_apply (m : Parse α) (k : α → Parse β) (d : Nat) (s : Stream) :
    (m >>= k) d s =
      match m d s with
      | .ok a rest => k a d rest
      | .error fault rest => .error fault rest := rfl

theorem atMark_apply (m : Mark) (d : Nat) (s : Stream) :
    atMark m d s = .ok (s.head.lexeme.isMark m) s := rfl

theorem atKeyword_apply (k : Keyword) (d : Nat) (s : Stream) :
    atKeyword k d s = .ok (s.head.lexeme.isKeyword k) s := rfl

theorem skipWhile_apply (p : Lexeme → Bool) (d : Nat) (s : Stream) :
    skipWhile p d s = .ok () (s.dropWhile p) := rfl

/-- A loop has as many rounds as there are tokens, and one more. -/
theorem loop_apply (init : σ) (round : σ → Parse (Round σ β)) (d : Nat) (s : Stream) :
    loop init round d s = rounds round (s.length + 1) init d s := rfl

/-- On the cursor, a sequence goes on where its first part has left the cursor. -/
theorem exec_bind {source : Source} (m : Parse α) (k : α → Parse β) (c : Cursor source) :
    (m >>= k).exec c =
      match m.exec c with
      | .ok a c' => (k a).exec c'
      | .error fault c' => .error fault c' := rfl

theorem id_map_eq (m : Parse α) : id <$> m = m := by
  refine Parse.ext (funext fun d => funext fun s => ?_) (funext fun source => funext fun c => ?_)
  · change (m >>= fun a => pure a) d s = m d s
    rw [bind_apply]
    cases m d s <;> rfl
  · change (m >>= fun a => pure a).exec c = m.exec c
    rw [exec_bind]
    cases m.exec c <;> rfl

theorem bind_assoc_eq {γ : Type} (m : Parse α) (k : α → Parse β) (k' : β → Parse γ) :
    m >>= k >>= k' = m >>= fun a => k a >>= k' := by
  refine Parse.ext (funext fun d => funext fun s => ?_) (funext fun source => funext fun c => ?_)
  · simp only [bind_apply]
    cases m d s <;> rfl
  · simp only [exec_bind]
    cases m.exec c <;> rfl

instance : LawfulMonad Parse := LawfulMonad.mk' Parse id_map_eq (fun _ _ => rfl) bind_assoc_eq

/-- At depth `d`, `m` takes the lexemes `ls` off every stream that goes on with `rest`, and gives
`a`. -/
def Reads (m : Parse α) (d : Nat) (ls : List Lexeme) (a : α) (rest : List Lexeme) : Prop :=
  ∀ s : Stream, s.lexemes = ls ++ rest → m d s = .ok a (s.drop ls.length)

namespace Reads

theorem pure : Reads (Pure.pure a) d [] a rest := fun _ _ => rfl

/-- Readers in a row read texts in a row. -/
theorem bind {m : Parse α} {k : α → Parse β} (hm : Reads m d l₁ a (l₂ ++ rest))
    (hk : Reads (k a) d l₂ b rest) : Reads (m >>= k) d (l₁ ++ l₂) b rest := by
  intro s hs
  rw [List.append_assoc] at hs
  have hrest : (s.drop l₁.length).lexemes = l₂ ++ rest := by simp [hs]
  rw [bind_apply, hm s hs]
  simp [hk _ hrest]

theorem bind_nil {m : Parse α} {k : α → Parse β} (hm : Reads m d [] a (ls ++ rest))
    (hk : Reads (k a) d ls b rest) : Reads (m >>= k) d ls b rest :=
  (hm.bind hk : Reads (m >>= k) d ([] ++ ls) b rest)

theorem bind_one {m : Parse α} {k : α → Parse β} {l : Lexeme} (hm : Reads m d [l] a (ls ++ rest))
    (hk : Reads (k a) d ls b rest) : Reads (m >>= k) d (l :: ls) b rest :=
  (hm.bind hk : Reads (m >>= k) d ([l] ++ ls) b rest)

theorem bind_last {m : Parse α} {k : α → Parse β} (hm : Reads m d ls a rest)
    (hk : Reads (k a) d [] b rest) : Reads (m >>= k) d ls b rest := by
  have h : Reads (m >>= k) d (ls ++ []) b rest := bind hm hk
  rwa [List.append_nil] at h

theorem map {m : Parse α} (f : α → β) (hm : Reads m d ls a rest) :
    Reads (f <$> m) d ls (f a) rest := by
  intro s hs
  rw [map_eq_pure_bind, bind_apply, hm s hs]
  rfl

end Reads

/-! ## Single lexemes -/

variable {l : Lexeme} {k : Keyword} {m : Mark}

theorem reads_peek : Reads peek d [] (front rest) rest := by
  intro s hs
  simp [peek, s.head_lexeme, hs]

theorem reads_peekSecond : Reads peekSecond d [] (front rest.tail) rest := by
  intro s hs
  simp [peekSecond, s.second_lexeme, hs]

theorem reads_advance : Reads advance d [l] () rest := by
  intro s _
  simp [advance, s.tail_eq_drop]

/-- A reader may use the token it stands at, of which only the lexeme is known. -/
theorem reads_token_bind {f : Token → Parse β}
    (h : ∀ t : Token, t.lexeme = front (ls ++ rest) → Reads (f t) d ls b rest) :
    Reads (token >>= f) d ls b rest := by
  intro s hs
  exact h s.head (by rw [s.head_lexeme, hs]) s hs

theorem reads_atMark (h : (front rest).isMark m = true) : Reads (atMark m) d [] true rest := by
  rw [← h]
  exact reads_peek.bind_nil .pure

theorem reads_atMark_of_not (h : (front rest).isMark m = false) :
    Reads (atMark m) d [] false rest := by
  rw [← h]
  exact reads_peek.bind_nil .pure

theorem reads_atKeyword (h : (front rest).isKeyword k = true) :
    Reads (atKeyword k) d [] true rest := by
  rw [← h]
  exact reads_peek.bind_nil .pure

theorem reads_atKeyword_of_not (h : (front rest).isKeyword k = false) :
    Reads (atKeyword k) d [] false rest := by
  rw [← h]
  exact reads_peek.bind_nil .pure

theorem isMark_self : (Lexeme.mark m).isMark m = true := beq_self_eq_true m

theorem isKeyword_self : (Lexeme.keyword k).isKeyword k = true := beq_self_eq_true k

theorem reads_expectMark : Reads (expectMark m) d [.mark m] () rest :=
  (reads_atMark isMark_self).bind_nil reads_advance

theorem reads_expectKeyword {expected : String} :
    Reads (expectKeyword k expected) d [.keyword k] () rest :=
  (reads_atKeyword isKeyword_self).bind_nil reads_advance

/-- A mark that may be left out is read where it is there. -/
theorem reads_takeMark : Reads (takeMark m) d [.mark m] true rest :=
  (reads_atMark isMark_self).bind_nil (reads_advance.bind_one .pure)

theorem reads_takeMark_of_not (h : (front rest).isMark m = false) :
    Reads (takeMark m) d [] false rest :=
  (reads_atMark_of_not h).bind_nil .pure

theorem reads_expectName {word expected : String} (h : l.word? = some word) :
    Reads (expectName expected) d [l] word rest := by
  refine reads_peek.bind_nil ?_
  cases l <;> simp only [Lexeme.word?, reduceCtorEq, Option.some.injEq] at h
  all_goals
    subst h
    exact reads_advance.bind_one .pure

theorem reads_expectVariable {word expected : String} (h : l.word? = some word) :
    Reads (expectVariable expected) d [.mark .dollar, l] word rest :=
  (reads_atMark rfl).bind_nil (reads_advance.bind_one (reads_expectName h))

/-- Nothing is skipped before a lexeme of another kind. -/
theorem reads_skipWhile {p : Lexeme → Bool} (h : p (front rest) = false) :
    Reads (skipWhile p) d [] () rest := by
  intro s hs
  have hfront : ¬ p s.head.lexeme := by
    rw [s.head_lexeme, hs, List.nil_append, h]
    simp
  simp [skipWhile, Stream.dropWhile_of_neg fun _ => hfront]

theorem reads_skipNewlines (h : (front rest).isNewline = false) :
    Reads skipNewlines d [] () rest := reads_skipWhile h

theorem reads_skipSeparators (h : isSeparator (front rest) = false) :
    Reads skipSeparators d [] () rest := reads_skipWhile h

/-! ## Loops -/

/-- From a state, the rounds of a loop read `ls` and end with `b`, as long as there are more rounds
allowed than there are lexemes. -/
def Iterates (round : σ → Parse (Round σ β)) (d : Nat) (state : σ) (ls : List Lexeme) (b : β)
    (rest : List Lexeme) : Prop :=
  ∀ n, ls.length < n → Reads (rounds round n state) d ls b rest

variable {round : σ → Parse (Round σ β)} {state next : σ}

theorem Iterates.done (h : Reads (round state) d ls (.done b) rest) :
    Iterates round d state ls b rest := by
  intro n hn
  obtain ⟨n, rfl⟩ : ∃ k, n = k + 1 := ⟨n - 1, by omega⟩
  rw [← List.append_nil ls]
  exact Reads.bind (by simpa using h) Reads.pure

/-- A round that goes on takes at least one lexeme. -/
theorem Iterates.more (h : Reads (round state) d l₁ (.more next) (l₂ ++ rest)) (hl : l₁ ≠ [])
    (hnext : Iterates round d next l₂ b rest) : Iterates round d state (l₁ ++ l₂) b rest := by
  intro n hn
  have hpos : 0 < l₁.length := List.length_pos_iff.mpr hl
  rw [List.length_append] at hn
  obtain ⟨n, rfl⟩ : ∃ k, n = k + 1 := ⟨n - 1, by omega⟩
  exact h.bind (hnext n (by omega))

/-- A loop reads what its rounds read one after the other. -/
theorem Iterates.reads (h : Iterates round d state ls b rest) :
    Reads (loop state round) d ls b rest := by
  intro s hs
  have hlen : ls.length < s.length + 1 := by
    rw [← s.length_lexemes, hs, List.length_append]
    omega
  exact h _ hlen s hs

end Parse

end RouteScript
