import RouteScript.Proofs.Syntax.Reads

/-!
# Results of readers

`r.Gives d P` says that everything that `r` gives at the depth `d` has the property `P`. The rules
below follow the combinators of readers; a loop has an invariant.
-/

namespace RouteScript

namespace Parse

variable {α β σ : Type} {d : Nat} {P : α → Prop} {Q : β → Prop} {r : Parse α} {k : α → Parse β}

/-- What the reader gives at a depth has a property. -/
def Gives (d : Nat) (P : α → Prop) (r : Parse α) : Prop := ∀ s a rest, r d s = .ok a rest → P a

/-- What a sequence gives, its last part gives from all that the first may give. -/
theorem Gives.bind (hr : r.Gives d P) (hk : ∀ a, P a → (k a).Gives d Q) : (r >>= k).Gives d Q := by
  intro s c rest h
  rw [bind_apply] at h
  cases hresult : r d s with
  | ok a rest' =>
    rw [hresult] at h
    exact hk a (hr s a rest' hresult) rest' c rest h
  | error fault rest' =>
    rw [hresult] at h
    cases h

/-- Nothing needs to be known of what is read first. -/
theorem Gives.skip (hk : ∀ a, (k a).Gives d Q) : (r >>= k).Gives d Q :=
  Gives.bind (P := fun _ => True) (fun _ _ _ _ => trivial) fun a _ => hk a

theorem gives_pure {a : α} (h : P a) : Gives d P (pure a : Parse α) := by
  intro s b rest hb
  cases hb
  exact h

theorem gives_fail {fault : Diagnostic} : Gives d P (fail fault : Parse α) := by
  intro s a rest h
  cases h

theorem gives_unexpected {expected : String} : Gives d P (unexpected expected : Parse α) := by
  refine Gives.skip fun t => ?_
  split <;> exact gives_fail

theorem gives_depth {k : Nat → Parse α} (h : (k d).Gives d P) : (depth >>= k).Gives d P := h

/-- What is nested is read one level deeper. -/
theorem gives_nested (h : r.Gives (d + 1) P) : (nested r).Gives d P := h

theorem Gives.ite {c : Prop} [Decidable c] {r' : Parse α} (h : r.Gives d P) (h' : r'.Gives d P) :
    (if c then r else r').Gives d P := by
  split
  · exact h
  · exact h'

/-- A part that may be left out, and what follows in both cases. -/
theorem gives_when {c : Prop} [Decidable c] {r : Parse Unit} {k : Unit → Parse β}
    (hk : (k ()).Gives d Q) : (if c then r >>= k else k ()).Gives d Q :=
  .ite (Gives.skip fun _ => hk) hk

/-- A part of two kinds, and what follows in both cases. -/
theorem gives_either {c : Prop} [Decidable c] {r' : Parse α} (hr : r.Gives d P)
    (hr' : r'.Gives d P) (hk : ∀ a, P a → (k a).Gives d Q) :
    (if c then r >>= k else r' >>= k).Gives d Q :=
  .ite (hr.bind hk) (hr'.bind hk)

theorem Gives.mono {P' : α → Prop} (h : r.Gives d P) (hP : ∀ a, P a → P' a) : r.Gives d P' :=
  fun s a rest hr => hP a (h s a rest hr)

theorem Gives.map {f : α → β} (h : r.Gives d P) (hf : ∀ a, P a → Q (f a)) :
    (f <$> r).Gives d Q := by
  rw [map_eq_pure_bind]
  exact h.bind fun a ha => gives_pure (hf a ha)

def Round.Holds (I : σ → Prop) (Q : β → Prop) : Round σ β → Prop
  | .more state => I state
  | .done result => Q result

/-- An invariant of the rounds of a loop. -/
theorem gives_loop {I : σ → Prop} {init : σ} {round : σ → Parse (Round σ β)} (hinit : I init)
    (h : ∀ state, I state → (round state).Gives d (Round.Holds I Q)) :
    (loop init round).Gives d Q := by
  have hrounds (n : Nat) (state : σ) (hstate : I state) : (rounds round n state).Gives d Q := by
    induction n generalizing state with
    | zero => exact Gives.skip fun _ => gives_fail
    | succ n ih =>
      refine (h state hstate).bind fun next hnext => ?_
      cases next with
      | done result => exact gives_pure hnext
      | more next => exact ih next hnext
  exact fun s => hrounds (s.length + 1) init hinit s

end Parse

end RouteScript
