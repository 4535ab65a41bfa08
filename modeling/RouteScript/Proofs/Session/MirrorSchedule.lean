import RouteScript.Interpreter
import RouteScript.Proofs.Session.MirrorEvaluator

/-!
# Schedules with journals and schedules with bags

The scheduler looks at channels and futures only, so it wakes and starts the same tasks whether
sessions keep journals or hold bags.
-/

namespace RouteScript

variable {W W' : Realm} {own : Option ObjectRef} {s : Store} {pool pool' : List Sleeper}

inductive Sleeper.Mirrors (W : Realm) : Sleeper → Sleeper → Prop
  | mk (future : Nat) {own : Option ObjectRef} {r : Request}
    {resume resume' : r.Reply → Store → Run Value} (hr : r.Within W)
    (h : ∀ W' reply s, W <+: W' → r.BringsWithin W' reply → s.Within W' →
      (resume reply s).Mirrors own Value.Within W' (resume' reply (s.bags W'))) :
    Mirrors W ⟨future, r, resume⟩ ⟨future, r, resume'⟩

theorem Sleeper.Mirrors.mono (hW : W <+: W') {a b : Sleeper} (h : a.Mirrors W b) :
    a.Mirrors W' b := by
  obtain ⟨future, hr, h⟩ := h
  exact ⟨future, hr.mono hW, fun W'' reply s hW' => h W'' reply s (hW.trans hW')⟩

abbrev PoolsMirror (W : Realm) (pool pool' : List Sleeper) : Prop :=
  List.Forall₂ (Sleeper.Mirrors W) pool pool'

namespace Sleeper

/-- Tasks that wait do the same in every larger realm. -/
theorem poolsMirror_mono (hW : W <+: W') (h : PoolsMirror W pool pool') :
    PoolsMirror W' pool pool' :=
  h.imp fun _ _ => .mono hW

/-- Pools wake the same task. -/
theorem wakeFirst?_mirrors (hs : s.Within W) (h : PoolsMirror W pool pool') :
    (wakeFirst? s pool = none ∧ wakeFirst? (s.bags W) pool' = none) ∨
      ∃ future own run run' rest rest', wakeFirst? s pool = some (future, run, rest) ∧
        wakeFirst? (s.bags W) pool' = some (future, run', rest') ∧
        run.Mirrors own Value.Within W run' ∧ PoolsMirror W rest rest' := by
  induction h with
  | nil => exact .inl ⟨rfl, rfl⟩
  | @cons a b pool pool' hab hrest ih =>
    obtain @⟨future, own, r, resume, resume', hr, h⟩ := hab
    have hattempt' := Request.attempt?_bags (W := W) r s
    cases hattempt : r.attempt? s with
    | some found =>
      obtain ⟨reply, s'⟩ := found
      rw [hattempt, Option.map_some] at hattempt'
      obtain ⟨hreply, hs'⟩ := Request.within_of_attempt? hr hs hattempt
      refine .inr ⟨future, own, resume reply s', resume' reply (s'.bags W), pool, pool', ?_, ?_,
        h W reply s' List.prefix_rfl hreply hs', hrest⟩
      · simp only [wakeFirst?, wake?, hattempt, Option.map_some]
      · simp only [wakeFirst?, wake?, hattempt', Option.map_some]
    | none =>
      rw [hattempt, Option.map_none] at hattempt'
      obtain ⟨hnone, hnone'⟩ | ⟨other, own, run, run', rest, rest', hsome, hsome', hrun, hpools⟩ :=
        ih
      · left
        simp [wakeFirst?, wake?, hattempt, hattempt', hnone, hnone']
      · right
        refine ⟨other, own, run, run', _, _, ?_, ?_, hrun, .cons ⟨future, hr, h⟩ hpools⟩
        · simp [wakeFirst?, wake?, hattempt, hsome]
        · simp [wakeFirst?, wake?, hattempt', hsome']

/-- A task that has run to its next wait or its end leaves pools that do the same. -/
theorem note_mirrors (future : Nat) {run run' : Run Value}
    (hrun : run.Mirrors own Value.Within W run') (h : PoolsMirror W pool pool') :
    ∃ W' s rest rest', W.Grows W' ∧ note future pool run = (rest, s) ∧
      note future pool' run' = (rest', s.bags W') ∧ s.Within W' ∧ PoolsMirror W' rest rest' := by
  cases hrun with
  | @finished _ W' o t s hW ho ht hs =>
    have hpools := poolsMirror_mono hW.isPrefix h
    cases o with
    | value v =>
      exact ⟨W', s.settleFuture future (.ok v), _, _, hW, rfl, rfl, hs.settleFuture future ho,
        hpools⟩
    | signal x =>
      exact ⟨W', s.settleFuture future (.error x), _, _, hW, rfl, rfl, hs.settleFuture future ho,
        hpools⟩
    | starved => exact ⟨W', s, _, _, hW, rfl, rfl, hs, hpools⟩
  | @waiting _ W' r s resume resume' hW hr hs hresume =>
    refine ⟨W', s, _, _, hW, rfl, rfl, hs, List.rel_append (poolsMirror_mono hW.isPrefix h) ?_⟩
    exact .cons ⟨future, hr, hresume⟩ .nil

end Sleeper

/-- The ends of schedules are the same: with journals in the sessions of the one and with bags in
those of the other. By themselves they add no session to the realm. -/
inductive SettlesMirror {α : Type} (own : Option ObjectRef) (Q : Realm → α → Prop) (W : Realm) :
    Option (Settled α) → Option (Settled α) → Prop
  | none : SettlesMirror own Q W none none
  | some {W' : Realm} {outcome : Except Signal α} {t : Task} {s : Store}
    {pool pool' : List Sleeper} (hW : W.Grows W')
    (ho : Signal.Ends (Signal.Within W') (Q W') outcome) (ht : t.Serves own W') (hs : s.Within W')
    (hpools : PoolsMirror W' pool pool') :
    SettlesMirror own Q W (some ⟨outcome, t, s, pool⟩) (some ⟨outcome, t, s.bags W', pool'⟩)

theorem SettlesMirror.since {α : Type} {Q : Realm → α → Prop} (hW : W.Grows W')
    {settled settled' : Option (Settled α)} (h : SettlesMirror own Q W' settled settled') :
    SettlesMirror own Q W settled settled' := by
  cases h with
  | none => exact .none
  | some hW' ho ht hs hpools => exact .some (hW.trans hW') ho ht hs hpools

namespace Evaluator

variable {ev ev' : Evaluator}

/-- Runs that are finished settle alike. -/
theorem settle?_finished_mirrors {α : Type} {Q : Realm → α → Prop} (turns : Nat) {o : Outcome α}
    {t : Task} (hW : W.Grows W') (ho : o.Within W' Q) (ht : t.Serves own W') (hs : s.Within W')
    (h : PoolsMirror W pool pool') :
    SettlesMirror own Q W (ev.settle? turns pool (.finished o t s))
      (ev'.settle? turns pool' (.finished o t (s.bags W'))) := by
  have hpools := Sleeper.poolsMirror_mono hW.isPrefix h
  cases o with
  | value a =>
    simp only [settle?]
    exact .some hW ho ht hs hpools
  | signal x =>
    simp only [settle?]
    exact .some hW ho ht hs hpools
  | starved =>
    simp only [settle?]
    exact .none

variable (E : ∀ own, ev.Mirrors own ev')

include E

/-- A turn of the other tasks does the same on both sides. -/
theorem background?_mirrors (hs : s.Within W) (h : PoolsMirror W pool pool') :
    (ev.background? pool s = none ∧ ev'.background? pool' (s.bags W) = none) ∨
      ∃ W' s' rest rest', W.Grows W' ∧ ev.background? pool s = some (rest, s') ∧
        ev'.background? pool' (s.bags W) = some (rest', s'.bags W') ∧ s'.Within W' ∧
        PoolsMirror W' rest rest' := by
  obtain ⟨hnone, hnone'⟩ | ⟨future, own, run, run', rest, rest', hsome, hsome', hrun, hrest⟩ :=
    Sleeper.wakeFirst?_mirrors hs h
  · have hspawned' : (s.bags W).spawned = s.spawned := rfl
    simp only [background?, hnone, hnone', hspawned']
    cases hspawned : s.spawned with
    | nil => exact .inl ⟨rfl, rfl⟩
    | cons job later =>
      have hjobs := hs.spawned
      rw [hspawned, List.forall_mem_cons] at hjobs
      have hstarted : Store.Within W { s with spawned := later } :=
        { hs with spawned := hjobs.2 }
      have hrun := mirrors_work (E job.task.session?) hjobs.1.work job.task _ ⟨hjobs.1.task, rfl⟩
        hstarted
      obtain ⟨W', s', rest, rest', hW, hnote, hnote', hs', hrest⟩ :=
        Sleeper.note_mirrors job.future hrun h
      exact .inr ⟨W', s', rest, rest', hW, congrArg some hnote, congrArg some hnote', hs', hrest⟩
  · simp only [background?, hsome, hsome']
    obtain ⟨W', s', rest, rest', hW, hnote, hnote', hs', hrest⟩ :=
      Sleeper.note_mirrors future hrun hrest
    exact .inr ⟨W', s', rest, rest', hW, congrArg some hnote, congrArg some hnote', hs', hrest⟩

/-- Schedules come to the same end, if they come to an end. -/
theorem settle?_mirrors {α : Type} {Q : Realm → α → Prop} (turns : Nat) {run run' : Run α}
    (hrun : run.Mirrors own Q W run') (h : PoolsMirror W pool pool') :
    SettlesMirror own Q W (ev.settle? turns pool run) (ev'.settle? turns pool' run') := by
  induction turns generalizing W pool pool' run run' with
  | zero =>
    cases hrun with
    | finished hW ho ht hs => exact settle?_finished_mirrors 0 hW ho ht hs h
    | waiting => exact .none
  | succ turns ih =>
    cases hrun with
    | finished hW ho ht hs => exact settle?_finished_mirrors (turns + 1) hW ho ht hs h
    | @waiting _ W' r s resume resume' hW hr hs hresume =>
      have hpools := Sleeper.poolsMirror_mono hW.isPrefix h
      have hattempt' := Request.attempt?_bags (W := W') r s
      refine SettlesMirror.since hW ?_
      cases hattempt : r.attempt? s with
      | some found =>
        obtain ⟨reply, s'⟩ := found
        rw [hattempt, Option.map_some] at hattempt'
        obtain ⟨hreply, hs'⟩ := Request.within_of_attempt? hr hs hattempt
        simp only [settle?, hattempt, hattempt']
        exact ih (hresume W' reply s' List.prefix_rfl hreply hs') hpools
      | none =>
        rw [hattempt, Option.map_none] at hattempt'
        simp only [settle?, hattempt, hattempt']
        obtain ⟨hnone, hnone'⟩ | ⟨W'', s', rest, rest', hW', hsome, hsome', hs', hrest⟩ :=
          background?_mirrors E hs hpools
        · rw [hnone, hnone']
          exact .none
        · rw [hsome, hsome']
          -- the main task waits for the same, now with what the others have done
          have hwaiting := Run.Mirrors.waiting (.refl W'') (hr.mono hW'.isPrefix) hs'
            fun W₃ reply s'' hW₃ => hresume W₃ reply s'' (hW'.isPrefix.trans hW₃)
          exact .since hW' (ih hwaiting hrest)

end Evaluator

end RouteScript
