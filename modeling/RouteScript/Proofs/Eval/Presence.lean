import RouteScript.Proofs.Eval.Levels
import RouteScript.Proofs.Eval.PathReads
import RouteScript.Task.Schedule

/-!
# Looking for values

Whether something is there is decided by a search that goes along a path without reading what is not
there. Where it finds a value, the evaluation of the path comes to the same value in the same state,
and where it is interrupted, so is the evaluation. What it does not find has no data for its value.
-/

namespace RouteScript

open Evaluator

/-! ## Searches and evaluations -/

namespace Run

variable {α : Type}

/-- A search does what an evaluation does, up to where it finds nothing or is given up. The value of
what it does not find is no data. -/
inductive Finds : Run (Option Value) → Run Value → Prop
  | found {v : Value} {t : Task} {s : Store} :
    Finds (.finished (.value (some v)) t s) (.finished (.value v) t s)
  | missing {t : Task} {s : Store} {r : Run Value} (h : r.Delivers (·.isBare)) :
    Finds (.finished (.value none) t s) r
  | signal {x : Signal} {t : Task} {s : Store} :
    Finds (.finished (.signal x) t s) (.finished (.signal x) t s)
  | starved {t : Task} {s : Store} {r : Run Value} : Finds (.finished .starved t s) r
  | waiting {r : Request} {s : Store} {resume : r.Reply → Store → Run (Option Value)}
    {resume' : r.Reply → Store → Run Value}
    (h : ∀ reply s', Finds (resume reply s') (resume' reply s')) :
    Finds (.waiting r s resume) (.waiting r s resume')

namespace Finds

/-- The search of a part of what is found goes on like the evaluation of the part. -/
theorem bind {search : Run (Option Value)} {r : Run Value}
    {next : Option Value → Task → Store → Run (Option Value)}
    {next' : Value → Task → Store → Run Value} (h : search.Finds r)
    (hnone : ∀ t s, next none t s = .finished (.value none) t s)
    (hsome : ∀ c t s, (next (some c) t s).Finds (next' c t s))
    (hbare : ∀ c t s, c.isBare → (next' c t s).Delivers (·.isBare)) :
    (search.bind next).Finds (r.bind next') := by
  induction h with
  | @found v t s => exact hsome v t s
  | @missing t s r h =>
    rw [Run.bind, hnone]
    exact .missing (h.bind hbare)
  | signal => exact .signal
  | starved => exact .starved
  | waiting _ ih => exact .waiting ih

/-- What comes before a search may go on longer in the evaluation. -/
theorem of_extends {r r' : Run α} {next : α → Task → Store → Run (Option Value)}
    {next' : α → Task → Store → Run Value} (h : r.Extends r')
    (hnext : ∀ a t s, (next a t s).Finds (next' a t s)) : (r.bind next).Finds (r'.bind next') := by
  induction h with
  | starved => exact .starved
  | @finished o t s =>
    cases o with
    | value a => exact hnext a t s
    | signal x => exact .signal
    | starved => exact .starved
  | waiting _ ih => exact .waiting ih

end Finds

end Run

/-! ## Ends -/

namespace Evaluator

variable {ev : Evaluator} {turns : Nat} {pool : List Sleeper}

section Waiting

variable {α : Type} {request : Request} {s : Store} {resume : request.Reply → Store → Run α}

/-- A request that can be answered is answered at once. -/
theorem settle?_answered {answer : request.Reply × Store} (h : request.attempt? s = some answer) :
    ev.settle? (turns + 1) pool (.waiting request s resume) =
      ev.settle? turns pool (resume answer.1 answer.2) := by
  rw [settle?, h]

/-- A request that cannot be answered lets the other tasks go on first. -/
theorem settle?_postponed {progress : List Sleeper × Store} (h : request.attempt? s = none)
    (hbackground : ev.background? pool s = some progress) :
    ev.settle? (turns + 1) pool (.waiting request s resume) =
      ev.settle? turns progress.1 (.waiting request progress.2 resume) := by
  rw [settle?, h]
  simp only [hbackground]

/-- If no other task can go on either, the run never settles. -/
theorem settle?_stuck (h : request.attempt? s = none) (hbackground : ev.background? pool s = none) :
    ev.settle? (turns + 1) pool (.waiting request s resume) = none := by
  rw [settle?, h]
  simp only [hbackground]

end Waiting

/-- What a run delivers holds of what it settles with. -/
theorem settle?_delivers {α : Type} {P : α → Prop} {r : Run α} (h : r.Delivers P) {a : α} {t : Task}
    {s : Store} {pool' : List Sleeper} (hr : ev.settle? turns pool r = some ⟨.ok a, t, s, pool'⟩) :
    P a := by
  induction r generalizing turns pool with
  | finished o t₁ s₁ =>
    cases o with
    | value b =>
      obtain rfl : b = a := by simp_all [settle?]
      exact h.of_yields .finished
    | signal x => simp [settle?] at hr
    | starved => simp [settle?] at hr
  | waiting request s₁ resume ih =>
    cases h with
    | waiting h =>
      -- other tasks may go on before the answer is there, hence the induction on the turns inside
      induction turns generalizing pool s₁ with
      | zero => cases hr
      | succ turns ihturns =>
        cases hattempt : request.attempt? s₁ with
        | some answer =>
          rw [settle?_answered hattempt] at hr
          exact ih answer.1 answer.2 (h answer.1 answer.2) hr
        | none =>
          cases hbackground : ev.background? pool s₁ with
          | some progress =>
            rw [settle?_postponed hattempt hbackground] at hr
            exact ihturns progress.2 hr
          | none =>
            rw [settle?_stuck hattempt hbackground] at hr
            cases hr

/-- What a search comes to at its end. The evaluation may take more turns for what is missing. -/
theorem settle?_finds {search : Run (Option Value)} {r : Run Value} (h : search.Finds r)
    {d : Settled (Option Value)} (hd : ev.settle? turns pool search = some d) :
    (∀ v, d.outcome = .ok (some v) →
      ev.settle? turns pool r = some ⟨.ok v, d.task, d.store, d.pool⟩) ∧
    (∀ x, d.outcome = .error x →
      ev.settle? turns pool r = some ⟨.error x, d.task, d.store, d.pool⟩) ∧
    (d.outcome = .ok none → ∀ turns' v t s pool',
      ev.settle? turns' pool r = some ⟨.ok v, t, s, pool'⟩ → v.isBare) := by
  induction h generalizing turns pool with
  | found =>
    simp only [settle?, Option.some.injEq] at hd
    subst hd
    simp [settle?]
  | missing h =>
    simp only [settle?, Option.some.injEq] at hd
    subst hd
    exact ⟨by simp, by simp, fun _ _ _ _ _ _ hr => settle?_delivers h hr⟩
  | signal =>
    simp only [settle?, Option.some.injEq] at hd
    subst hd
    simp [settle?]
  | starved => simp [settle?] at hd
  | @waiting request s resume resume' _ ih =>
    induction turns generalizing pool s with
    | zero => cases hd
    | succ turns ihturns =>
      cases hattempt : request.attempt? s with
      | some answer =>
        rw [settle?_answered hattempt] at hd ⊢
        obtain ⟨hfound, hsignal, hmissing⟩ := ih answer.1 answer.2 hd
        refine ⟨hfound, hsignal, fun hnone turns' v t s₁ pool' hr => ?_⟩
        cases turns' with
        | zero => cases hr
        | succ turns' =>
          rw [settle?_answered hattempt] at hr
          exact hmissing hnone turns' v t s₁ pool' hr
      | none =>
        cases hbackground : ev.background? pool s with
        | some progress =>
          rw [settle?_postponed hattempt hbackground] at hd ⊢
          obtain ⟨hfound, hsignal, hmissing⟩ := ihturns hd
          refine ⟨hfound, hsignal, fun hnone turns' v t s₁ pool' hr => ?_⟩
          cases turns' with
          | zero => cases hr
          | succ turns' =>
            rw [settle?_postponed hattempt hbackground] at hr
            exact hmissing hnone turns' v t s₁ pool' hr
        | none =>
          rw [settle?_stuck hattempt hbackground] at hd
          cases hd

end Evaluator

/-! ## Elements and members -/

/-- An element that exists reads as itself. -/
theorem Value.element_of_element? {fields : ObjectRef → Dict Value} {c key v : Value}
    (h : c.element? fields key = some v) : c.element fields key = .ok v := by
  have hindexable : c.isIndexable key := by
    unfold element? at h
    split at h
    · rfl
    · rfl
    · rfl
    · rfl
    · cases h
  rw [element, if_pos hindexable, h, Option.getD_some]

theorem Value.member_of_member? {s : Store} {property : String} {c v : Value}
    (h : c.member? s.fields property = some v) : c.member s property = .ok v := by
  cases c with
  | object ref =>
    change Dict.get? property (s.fields ref) = some v at h
    simp [member, h]
  | map entries =>
    change Dict.get? property entries = some v at h
    simp [member, h]
  | _ => cases h

/-- A member that does not exist reads as a bare value, if as any. -/
theorem Value.isBare_of_member?_eq_none {s : Store} {property : String} {c v : Value}
    (h : c.member? s.fields property = none) (hv : c.member s property = .ok v) : v.isBare := by
  cases c with
  | object ref =>
    change Dict.get? property (s.fields ref) = none at h
    simp only [member, h, Option.getD_none, Except.ok.injEq] at hv
    subst hv
    cases s.classes.resolve? ref.className property <;> rfl
  | map entries =>
    change Dict.get? property entries = none at h
    simp only [member, h, Option.getD_none, Except.ok.injEq] at hv
    subst hv
    rfl
  | nil =>
    cases hv
    rfl
  | _ => cases hv

namespace Evaluator

/-- The test for an element finds what reading it gives. -/
theorem finds_element (c key : Value) (t : Task) (s : Store) :
    (Run.finished (.value (c.element? s.fields key)) t s).Finds
      (Script.ofExcept (c.element s.fields key) t s) := by
  rw [Script.ofExcept_apply]
  cases helement : c.element? s.fields key with
  | some v =>
    rw [Value.element_of_element? helement]
    exact .found
  | none =>
    refine .missing ?_
    rw [Value.element, helement]
    split
    · exact .finished fun v hv => by cases hv; rfl
    · exact .finished fun v hv => by cases hv

/-- The test for a member finds what reading it gives. -/
theorem finds_member (ev : Evaluator) (c : Value) (property : String) (t : Task) (s : Store) :
    (Run.finished (.value (c.member? s.fields property)) t s).Finds
      (ev.readMember c property t s) := by
  by_cases hclass : ∃ className, c = .classRef className
  · obtain ⟨className, rfl⟩ := hclass
    exact .missing (isBare_readMember ev rfl property t s)
  · rw [readMember_apply ev (fun className hc => hclass ⟨className, hc⟩)]
    cases hmember : c.member? s.fields property with
    | some v =>
      rw [Value.member_of_member? hmember]
      exact .found
    | none =>
      refine .missing (.finished fun v hv => ?_)
      exact Value.isBare_of_member?_eq_none hmember (Outcome.ofExcept_inj.mp hv)

end Evaluator

/-! ## Paths -/

namespace Path

def length : Path → Nat
  | .name _ | .this => 0
  | .index path _ => path.length + 1
  | .member path _ _ => path.length + 1

variable {host : HostHandler} {n m : Nat}

/-- The search along a path finds what the evaluation comes to, with as many levels more as it takes
to get to the indices. -/
theorem finds_existing? (hhost : host.Extends) {path : Path} (hlevels : n + path.length < m)
    (t : Task) (s : Store) :
    ((withLevels host n).existing? path.expr t s).Finds
      ((withLevels host m).expr path.expr t s) := by
  induction path generalizing m t s with
  | name word =>
    obtain ⟨m, rfl⟩ := Nat.exists_eq_add_of_le' (Nat.one_le_of_lt hlevels)
    change (Run.finished (.value (t.scope.get? word)) t s).Finds
      (.finished (.value (lookup word t s)) t s)
    cases hget : t.scope.get? word with
    | some v =>
      rw [lookup, hget]
      exact .found
    | none =>
      refine .missing (.finished fun v hv => ?_)
      cases hv
      exact isBare_lookup (by simp [hget])
  | this =>
    obtain ⟨m, rfl⟩ := Nat.exists_eq_add_of_le' (Nat.one_le_of_lt hlevels)
    change (Run.finished (.value t.scope.this) t s).Finds
      (.finished (.value (t.scope.this.getD .nil)) t s)
    cases t.scope.this with
    | some v => exact .found
    | none =>
      refine .missing (.finished fun v hv => ?_)
      cases hv
      rfl
  | index path key ih =>
    obtain ⟨m, rfl⟩ := Nat.exists_eq_add_of_le' (Nat.one_le_of_lt hlevels)
    simp only [length] at hlevels
    cases key with
    | none => exact .missing (.finished (by simp))
    | some key =>
      have htarget := ih (m := m) (by omega) t s
      refine htarget.bind (fun _ _ => rfl) (fun c t₁ s₁ => ?_) fun c t₁ s₁ hc => ?_
      · refine .of_extends (expr_extends hhost (by omega) key t₁ s₁) fun k t₂ s₂ => ?_
        exact finds_element c k t₂ s₂
      · refine (Run.Delivers.anything _).bind fun k t₂ s₂ _ => ?_
        exact isBare_element hc k t₂ s₂
  | member path property access ih =>
    obtain ⟨m, rfl⟩ := Nat.exists_eq_add_of_le' (Nat.one_le_of_lt hlevels)
    simp only [length] at hlevels
    have hobject := ih (m := m) (by omega) t s
    refine hobject.bind (fun _ _ => rfl) (fun c t₁ s₁ => ?_) fun c t₁ s₁ hc => ?_
    · exact finds_member _ c property t₁ s₁
    · exact isBare_readMember _ hc property t₁ s₁

end Path

/-- Where the search for what a path names finds a value and comes to its end in a state, the
evaluation of the path comes to the same value in the same state, and where the search ends in a
signal, so does the evaluation. If the search finds nothing, the path has no data for its value. -/
theorem existing_value_is_evaluated {host : HostHandler} (hhost : host.Extends) {n m : Nat}
    {path : Path} (hlevels : n + path.length < m) (t : Task) (s : Store) (ev : Evaluator)
    (turns : Nat) (pool : List Sleeper) :
    (∀ v t' s' pool', ev.settle? turns pool ((withLevels host n).existing? path.expr t s) =
        some ⟨.ok (some v), t', s', pool'⟩ →
      ev.settle? turns pool ((withLevels host m).expr path.expr t s) =
        some ⟨.ok v, t', s', pool'⟩) ∧
    (∀ x t' s' pool', ev.settle? turns pool ((withLevels host n).existing? path.expr t s) =
        some ⟨.error x, t', s', pool'⟩ →
      ev.settle? turns pool ((withLevels host m).expr path.expr t s) =
        some ⟨.error x, t', s', pool'⟩) ∧
    ∀ t' s' pool', ev.settle? turns pool ((withLevels host n).existing? path.expr t s) =
        some ⟨.ok none, t', s', pool'⟩ →
      ∀ turns' v t₁ s₁ pool₁, ev.settle? turns' pool ((withLevels host m).expr path.expr t s) =
        some ⟨.ok v, t₁, s₁, pool₁⟩ → v.isBare := by
  have hfinds := path.finds_existing? hhost hlevels t s
  refine ⟨fun v t' s' pool' hd => ?_, fun x t' s' pool' hd => ?_, fun t' s' pool' hd => ?_⟩
  · exact (settle?_finds hfinds hd).1 v rfl
  · exact (settle?_finds hfinds hd).2.1 x rfl
  · exact (settle?_finds hfinds hd).2.2 rfl

/-- Looking for `$a[$i++]` finds the first element and leaves 1 in `$i`, as the evaluation does. -/
theorem existing_value_is_evaluated_step :
    let path : Path := .index (.name "a") (some (.step (.name "i") .increment))
    let i (n : Int64) : Task :=
      { scope := { globals := { vars := [("a", .array [.int 7]), ("i", .int n)] } } }
    HostHandler.none.Extends ∧ 3 + path.length < 5 ∧
      (withLevels .none 0).settle? 0 [] ((withLevels .none 3).existing? path.expr (i 0) {}) =
        some ⟨.ok (some (.int 7)), i 1, {}, []⟩ ∧
      (withLevels .none 0).settle? 0 [] ((withLevels .none 5).expr path.expr (i 0) {}) =
        some ⟨.ok (.int 7), i 1, {}, []⟩ := by
  intro path i
  have hfollows : HostHandler.none.Follows Store.Step := HostHandler.none_follows
  have hhost := hfollows.extends
  have hlevels : 3 + path.length < 5 := by decide
  have hsearch : (withLevels .none 0).settle? 0 []
      ((withLevels .none 3).existing? path.expr (i 0) {}) =
        some ⟨.ok (some (.int 7)), i 1, {}, []⟩ := rfl
  refine ⟨hhost, hlevels, hsearch, ?_⟩
  exact (existing_value_is_evaluated hhost hlevels (i 0) {} _ 0 []).1 _ _ _ _ hsearch

end RouteScript
