import RouteScript.Proofs.Syntax.Reads

/-!
# Progress of readers

A reader only takes tokens off the front of its stream, whether it succeeds or fails, and a fault is
shown by one of the tokens that it has come to. `m.Spends n cost` says so for streams of fewer than
`n` tokens, and that `m` takes at least `cost a` tokens when it gives `a`. The rules below follow
the combinators of readers. A loop comes to its end by itself if every round that goes on takes a
token.
-/

namespace RouteScript

def Diagnostic.isUnfinished : Diagnostic → Bool
  | .misuse .unfinished _ => true
  | _ => false

namespace Stream

/-- What is left when some tokens have been taken off the front. -/
def IsRest (rest s : Stream) : Prop := ∃ n, rest = s.drop n

variable {s t u : Stream}

theorem IsRest.refl (s : Stream) : s.IsRest s := ⟨0, rfl⟩

theorem IsRest.trans (h : u.IsRest t) (h' : t.IsRest s) : u.IsRest s := by
  obtain ⟨n, rfl⟩ := h
  obtain ⟨m, rfl⟩ := h'
  exact ⟨m + n, drop_drop m n s⟩

theorem isRest_tail (s : Stream) : s.tail.IsRest s := ⟨1, s.tail_eq_drop⟩

theorem isRest_dropWhile (p : Lexeme → Bool) (s : Stream) : IsRest (s.dropWhile p) s := by
  refine ⟨(s.tokens.takeWhile (p ·.lexeme)).length, ?_⟩
  have hsplit : s.tokens.takeWhile (p ·.lexeme) ++ s.tokens.dropWhile (p ·.lexeme) = s.tokens :=
    List.takeWhile_append_dropWhile
  calc
    s.dropWhile p = ⟨s.tokens.dropWhile (p ·.lexeme), s.stop⟩ := rfl
    _ = ⟨(s.tokens.takeWhile (p ·.lexeme) ++ s.tokens.dropWhile (p ·.lexeme)).drop
          (s.tokens.takeWhile (p ·.lexeme)).length, s.stop⟩ := by rw [List.drop_left]
    _ = s.drop (s.tokens.takeWhile (p ·.lexeme)).length := by rw [hsplit, drop]

/-- What is left is no longer than what there was. -/
theorem IsRest.length_le (h : t.IsRest s) : t.length ≤ s.length := by
  obtain ⟨n, rfl⟩ := h
  simp [drop, length]

/-- Where there is a token in front, one is taken off. -/
theorem length_tail (h : s.head.lexeme ≠ .eof) : s.tail.length + 1 = s.length := by
  obtain ⟨tokens, stop⟩ := s
  cases tokens with
  | nil => exact absurd rfl h
  | cons t ts => rfl

end Stream

variable {α β σ : Type}

/-- What has been read from `s` on, with at least `cost a` tokens for the result `a`. -/
def Parsed.Fits (s : Stream) (cost : α → Nat) : Parsed α → Prop
  | .ok a rest => rest.IsRest s ∧ rest.length + cost a ≤ s.length
  | .error fault rest =>
    fault.isUnfinished = false ∧
      ∃ t : Stream, t.IsRest s ∧ rest.IsRest t ∧ fault.place = t.head.position

/-- What fits a rest fits the whole, with the tokens before the rest added. -/
theorem Parsed.Fits.of_isRest {s t : Stream} {cost cost' : α → Nat} {c : Nat} {p : Parsed α}
    (h : p.Fits t cost) (ht : t.IsRest s) (hc : t.length + c ≤ s.length)
    (hcost : ∀ a, cost' a ≤ c + cost a) : p.Fits s cost' := by
  cases p with
  | ok a rest =>
    obtain ⟨hrest, hle⟩ := h
    have hle' := hcost a
    exact ⟨hrest.trans ht, by omega⟩
  | error fault rest =>
    obtain ⟨hfinished, u, hu, hrest, hplace⟩ := h
    exact ⟨hfinished, u, hu.trans ht, hrest, hplace⟩

namespace Parse

/-- On streams of fewer than `n` tokens, `m` takes at least `cost a` tokens to give `a`. -/
def Spends (n : Nat) (cost : α → Nat) (m : Parse α) : Prop :=
  ∀ d s, s.length < n → (m d s).Fits s cost

def SpendsAt (t : Token) (n : Nat) (cost : α → Nat) (m : Parse α) : Prop :=
  ∀ d s, s.length < n → s.head = t → (m d s).Fits s cost

/-- The same when the token `t` in front has just been taken; it counts as taken by `m`. -/
def SpendsBehind (t : Token) (n : Nat) (cost : α → Nat) (m : Parse α) : Prop :=
  ∀ d s, s.length < n → s.head = t → (m d s.tail).Fits s cost

abbrev Keeps (n : Nat) (m : Parse α) : Prop := m.Spends n fun _ => 0

abbrev Takes (n : Nat) (m : Parse α) : Prop := m.Spends n fun _ => 1

def Round.cost : Round σ β → Nat
  | .more _ => 1
  | .done _ => 0

/-- A round takes at least one token, or is the last one. -/
abbrev Turns (n : Nat) (m : Parse (Round σ β)) : Prop := m.Spends n Round.cost

theorem Round.cost_le (r : Round σ β) : r.cost ≤ 1 := by
  cases r <;> simp [cost]

variable {n : Nat} {m : Parse α} {k : α → Parse β} {cost : β → Nat}

/-! ## Sequences -/

namespace Spends

theorem mono {n' : Nat} {cost cost' : α → Nat} (h : m.Spends n cost) (hn : n' ≤ n)
    (hcost : ∀ a, cost' a ≤ cost a) : m.Spends n' cost' := by
  intro d s hs
  refine (h d s (by omega)).of_isRest (c := 0) (.refl s) (Nat.le_refl _) fun a => ?_
  have := hcost a
  omega

theorem keeps {cost : α → Nat} (h : m.Spends n cost) : m.Keeps n :=
  h.mono (Nat.le_refl _) fun _ => Nat.zero_le _

/-- What is read on longer streams is read on shorter ones. -/
theorem inside {cost : α → Nat} (h : m.Spends (n + 1) cost) : m.Spends n cost :=
  h.mono (Nat.le_succ n) fun _ => Nat.le_refl _

/-- The tokens that the first reader takes shorten the stream for the second one. -/
theorem bind {cost' : α → Nat} (hm : m.Spends n cost')
    (hk : ∀ a, (k a).Spends (n - cost' a) fun b => cost b - cost' a) :
    (m >>= k).Spends n cost := by
  intro d s hs
  have hfits := hm d s hs
  rw [bind_apply]
  cases hresult : m d s with
  | ok a rest =>
    rw [hresult] at hfits
    obtain ⟨hrest, hle⟩ := hfits
    refine (hk a d rest (by omega)).of_isRest hrest hle fun b => ?_
    omega
  | error fault rest =>
    rw [hresult] at hfits
    exact hfits

theorem ite {c : Prop} [Decidable c] {cost : α → Nat} {m' : Parse α}
    (h : m.Spends n cost) (h' : m'.Spends n cost) : (if c then m else m').Spends n cost := by
  split
  · exact h
  · exact h'

theorem pure {a : α} {cost : α → Nat} (h : cost a = 0) : Spends n cost (Pure.pure a) := by
  intro d s _
  exact ⟨.refl s, by simp [h]⟩

/-- A level of nesting takes in nothing by itself. -/
theorem nested {cost : α → Nat} (h : m.Spends n cost) : m.nested.Spends n cost :=
  fun d s hs => h (d + 1) s hs

end Spends

/-- A reader that may take in nothing leaves the cost to what follows. -/
theorem Keeps.bind (hm : m.Keeps n) (hk : ∀ a, (k a).Spends n cost) : (m >>= k).Spends n cost :=
  Spends.bind hm hk

/-- Behind the first token one less is left. -/
theorem Takes.bind (hm : m.Takes (n + 1)) (hk : ∀ a, (k a).Keeps n) : (m >>= k).Takes (n + 1) :=
  Spends.bind hm hk

/-- A token at the start is enough for the whole. -/
theorem Takes.bind_keeps (hm : m.Takes n) (hk : ∀ a, (k a).Keeps n) : (m >>= k).Takes n :=
  Spends.bind hm fun a => (hk a).mono (Nat.sub_le _ _) fun _ => Nat.le_refl _

/-- A round with a token at its start may go on. -/
theorem Takes.turns {k : α → Parse (Round σ β)} (hm : m.Takes n) (hk : ∀ a, (k a).Keeps n) :
    (m >>= k).Turns n :=
  (hm.bind_keeps hk).mono (Nat.le_refl _) Round.cost_le

theorem keeps_pure (a : α) : Keeps n (pure a : Parse α) := .pure rfl

theorem Keeps.map {f : α → β} (hm : m.Keeps n) : (f <$> m).Keeps n := by
  rw [map_eq_pure_bind]
  exact hm.bind fun a => keeps_pure _

theorem turns_done (b : β) : Turns n (pure (.done b) : Parse (Round σ β)) := .pure rfl

/-- A part that may be left out, and what follows in both cases. -/
theorem spends_when {c : Prop} [Decidable c] {m : Parse Unit} {k : Unit → Parse β} (hm : m.Keeps n)
    (hk : (k ()).Spends n cost) : (if c then m >>= k else k ()).Spends n cost :=
  .ite (hm.bind fun _ => hk) hk

/-- A part of two kinds, and what follows in both cases. -/
theorem spends_either {c : Prop} [Decidable c] {m' : Parse α} (hm : m.Keeps n) (hm' : m'.Keeps n)
    (hk : ∀ a, (k a).Spends n cost) : (if c then m >>= k else m' >>= k).Spends n cost :=
  .ite (hm.bind hk) (hm'.bind hk)

/-! ## The token in front -/

/-- What a reader does may depend on the token that it stands at. -/
theorem spends_token {k : Token → Parse α} {cost : α → Nat}
    (h : ∀ t, (k t).SpendsAt t n cost) : (token >>= k).Spends n cost :=
  fun d s hs => h s.head d s hs rfl

theorem spends_peek {k : Lexeme → Parse α} {cost : α → Nat}
    (h : ∀ t : Token, (k t.lexeme).SpendsAt t n cost) : (peek >>= k).Spends n cost :=
  fun d s hs => h s.head d s hs rfl

variable {t : Token}

theorem spendsAt_peekSecond {k : Lexeme → Parse α} {cost : α → Nat}
    (h : ∀ l, (k l).SpendsAt t n cost) : (peekSecond >>= k).SpendsAt t n cost :=
  fun d s hs ht => h s.second.lexeme d s hs ht

theorem Spends.at {cost : α → Nat} (h : m.Spends n cost) : m.SpendsAt t n cost :=
  fun d s hs _ => h d s hs

/-- Taking in the token leaves the rest of the work behind it. -/
theorem spendsAt_advance {k : Unit → Parse α} {cost : α → Nat} (h : (k ()).SpendsBehind t n cost) :
    (advance >>= k).SpendsAt t n cost :=
  h

/-- Behind a token, readers for shorter streams are good enough. -/
theorem Spends.behind {cost cost' : α → Nat} (h : m.Spends (n - 1) cost') (ht : t.lexeme ≠ .eof)
    (hcost : ∀ a, cost a ≤ 1 + cost' a) : m.SpendsBehind t n cost := by
  rintro d s hs rfl
  have hlength := s.length_tail ht
  exact (h d s.tail (by omega)).of_isRest s.isRest_tail (Nat.le_of_eq hlength) hcost

/-- Behind a token that is not the end, one token has been taken in. -/
theorem Keeps.behind (h : m.Keeps n) (ht : t.lexeme ≠ .eof) :
    m.SpendsBehind t (n + 1) fun _ => 1 :=
  Spends.behind h ht fun _ => Nat.le_refl _

theorem Keeps.turns_behind {m : Parse (Round σ β)} (h : m.Keeps n) (ht : t.lexeme ≠ .eof) :
    m.SpendsBehind t n Round.cost :=
  Spends.behind (h.mono (Nat.sub_le _ _) fun _ => Nat.le_refl _) ht Round.cost_le

theorem takesAt_advance (ht : t.lexeme ≠ .eof) : advance.SpendsAt t n fun _ => 1 := by
  rintro d s hs rfl
  exact ⟨s.isRest_tail, Nat.le_of_eq (s.length_tail ht)⟩

/-! ## Faults -/

/-- A fault at the token that a reader stands at is in order. -/
theorem spendsAt_fail {fault : Diagnostic} {cost : α → Nat} (hfault : fault.isUnfinished = false)
    (hplace : fault.place = t.position) : (fail fault : Parse α).SpendsAt t n cost := by
  rintro d s hs rfl
  exact ⟨hfault, s, .refl s, .refl s, hplace⟩

theorem spendsBehind_fail {fault : Diagnostic} {cost : α → Nat}
    (hfault : fault.isUnfinished = false) (hplace : fault.place = t.position) :
    (fail fault : Parse α).SpendsBehind t n cost := by
  rintro d s hs rfl
  exact ⟨hfault, s, .refl s, s.isRest_tail, hplace⟩

/-- Behind a token that does not suit what stands before it. -/
theorem SpendsBehind.ite_fail {c : Prop} [Decidable c] {fault : Diagnostic} {cost : α → Nat}
    (h : m.SpendsBehind t n cost) (hfault : fault.isUnfinished = false)
    (hplace : fault.place = t.position) : (if c then m else fail fault).SpendsBehind t n cost := by
  split
  · exact h
  · exact spendsBehind_fail hfault hplace

theorem spends_unexpected {expected : String} {cost : α → Nat} :
    (unexpected expected : Parse α).Spends n cost := by
  refine spends_token fun t => ?_
  split
  · exact spendsAt_fail rfl rfl
  · exact spendsAt_fail rfl rfl

/-! ## Readers of single tokens -/

theorem keeps_peek : peek.Keeps n := fun _ s _ => ⟨.refl s, Nat.le_refl _⟩

theorem keeps_peekSecond : peekSecond.Keeps n := fun _ s _ => ⟨.refl s, Nat.le_refl _⟩

theorem keeps_depth : depth.Keeps n := fun _ s _ => ⟨.refl s, Nat.le_refl _⟩

theorem keeps_advance : advance.Keeps n := fun _ s _ => ⟨s.isRest_tail, s.isRest_tail.length_le⟩

theorem atMark_bind (m : Mark) (k : Bool → Parse α) :
    atMark m >>= k = peek >>= fun l => k (l.isMark m) := rfl

theorem keeps_atMark {m : Mark} : (atMark m).Keeps n := keeps_peek.bind fun _ => keeps_pure _

theorem keeps_atKeyword {k : Keyword} : (atKeyword k).Keeps n :=
  keeps_peek.bind fun _ => keeps_pure _

theorem keeps_takeMark {m : Mark} : (takeMark m).Keeps n :=
  keeps_atMark.bind fun _ => .ite (keeps_advance.bind fun _ => keeps_pure _) (keeps_pure _)

/-- A reader that takes a token if a test of its lexeme succeeds, which the end never passes. -/
theorem takes_of_test {p : Lexeme → Bool} {expected : String} (hp : p .eof = false) :
    (do if p (← peek) then advance else unexpected expected).Takes n := by
  refine spends_peek fun t => ?_
  split
  next hpass =>
    refine takesAt_advance fun heof => ?_
    simp [heof, hp] at hpass
  next => exact spends_unexpected.at

/-- A mark that must be there is taken in or reported. -/
theorem takes_expectMark {m : Mark} : (expectMark m).Takes n := takes_of_test rfl

theorem takes_expectKeyword {k : Keyword} {expected : String} :
    (expectKeyword k expected).Takes n :=
  takes_of_test rfl

theorem takes_expectName {expected : String} : (expectName expected).Takes n := by
  refine Spends.inside (spends_peek fun t => ?_)
  split
  next hname => exact spendsAt_advance ((keeps_pure _).behind (by simp [hname]))
  next hkeyword => exact spendsAt_advance ((keeps_pure _).behind (by simp [hkeyword]))
  next => exact spends_unexpected.at

theorem takes_expectVariable {expected : String} : (expectVariable expected).Takes n := by
  rw [expectVariable, atMark_bind]
  refine Spends.inside (spends_peek fun t => ?_)
  split
  next hdollar =>
    refine spendsAt_advance (takes_expectName.keeps.behind fun heof => ?_)
    simp [heof, Lexeme.isMark] at hdollar
  next => exact spends_unexpected.at

theorem keeps_skipWhile {p : Lexeme → Bool} : (skipWhile p).Keeps n := fun _ s _ =>
  have hrest := s.isRest_dropWhile p
  ⟨hrest, hrest.length_le⟩

theorem keeps_skipNewlines : skipNewlines.Keeps n := keeps_skipWhile

theorem keeps_skipSeparators : skipSeparators.Keeps n := keeps_skipWhile

/-! ## Loops -/

/-- As every round that goes on takes a token, rounds for every token and one more are enough. -/
theorem fits_rounds {round : σ → Parse (Round σ β)} (h : ∀ state, (round state).Turns n) (d : Nat) :
    ∀ (r : Nat) (state : σ) (s : Stream), s.length < n → s.length < r →
      (rounds round r state d s).Fits s fun _ => 0 := by
  intro r
  induction r with
  | zero => intro state s hs hr; omega
  | succ r ih =>
    intro state s hs hr
    have hround := h state d s hs
    rw [rounds, bind_apply]
    -- A round that goes on leaves fewer tokens for the rounds that are left.
    cases hresult : round state d s with
    | error fault rest =>
      rw [hresult] at hround
      exact hround
    | ok next rest =>
      rw [hresult] at hround
      obtain ⟨hrest, hle⟩ := hround
      cases next with
      | done b => exact ⟨hrest, hrest.length_le⟩
      | more next =>
        have hle : rest.length + 1 ≤ s.length := hle
        refine (ih next rest (by omega) (by omega)).of_isRest hrest hle fun _ => ?_
        omega

/-- A loop comes to its end before the tokens do, as every round but the last takes one in. -/
theorem keeps_loop {init : σ} {round : σ → Parse (Round σ β)}
    (h : ∀ state, (round state).Turns n) : (loop init round).Keeps n :=
  fun d s hs => fits_rounds h d (s.length + 1) init s hs (Nat.lt_succ_self _)

end Parse

end RouteScript
