import RouteScript.Interpreter

/-!
# Runs to the end

An interpreter runs a script to its end together with its other tasks. What such a run comes to does
not depend on how much of the script waits: a script that does not wait comes to its own end, and a
script that catches the end of another one and does one thing more comes to the end of that one.
-/

namespace RouteScript

/-- A released outcome settles at once. -/
theorem Evaluator.settle?_release {α : Type} (ev : Evaluator) (turns : Nat) (pool : List Sleeper)
    (outcome : Except Signal α) (t : Task) (s : Store) :
    ev.settle? turns pool (Script.release outcome t s) = some ⟨outcome, t, s, pool⟩ := by
  cases outcome <;> simp [Script.release, Script.signal, Pure.pure, Script.pure, settle?]

/-- A captured run that is finished by a last change of the store settles when the run does. -/
theorem Evaluator.settle?_capture {α β : Type} (ev : Evaluator)
    (report : Except Signal α → Store → Except Signal β) (last : Store → Store) (turns : Nat)
    (pool : List Sleeper) (run : Run α) :
    ev.settle? turns pool
        (run.capture.bind fun outcome t s => Script.release (report outcome s) t (last s)) =
      (ev.settle? turns pool run).map fun d =>
        ⟨report d.outcome d.store, d.task, last d.store, d.pool⟩ := by
  induction turns generalizing pool run with
  | zero =>
    cases run with
    | finished o t s => cases o <;> simp [Run.capture, Run.bind, settle?_release, settle?]
    | waiting r s resume => rfl
  | succ turns ih =>
    cases run with
    | finished o t s => cases o <;> simp [Run.capture, Run.bind, settle?_release, settle?]
    | waiting r s resume =>
      simp only [Run.capture, Run.bind, settle?]
      cases r.attempt? s with
      | some answer => exact ih pool (resume answer.1 answer.2)
      | none =>
        simp only
        cases ev.background? pool s with
        | some progress => exact ih progress.1 (.waiting r progress.2 resume)
        | none => rfl

/-- A run that comes to a value and goes on with something that does not wait. -/
theorem Evaluator.settle?_bind {α β : Type} {ev : Evaluator} {turns : Nat}
    {pool pool' : List Sleeper} {run : Run α} {next : α → Script β} {a : α}
    {outcome : Except Signal β} {t t' : Task} {s s' : Store}
    (h : ev.settle? turns pool run = some ⟨.ok a, t, s, pool'⟩)
    (hnext : next a t s = Script.release outcome t' s') :
    ev.settle? turns pool (run.bind next) = some ⟨outcome, t', s', pool'⟩ := by
  fun_induction Evaluator.settle? ev turns pool run with
  | case1 turns pool b u r =>
    cases h
    simp only [Run.bind, hnext, settle?_release]
  | case2 | case3 | case4 | case6 => cases h
  | case5 turns pool request store resume reply store' hreply ih =>
    simp only [Run.bind, settle?, hreply]
    exact ih h
  | case7 turns pool request store resume hreply pool₁ store₁ hprogress ih =>
    simp only [Run.bind, settle?, hreply, hprogress]
    exact ih h

/-- A captured run settles with what the run settles with. -/
theorem Evaluator.settle?_capture_of_settle {α : Type} {ev : Evaluator} {turns : Nat}
    {pool : List Sleeper} {run : Run α} {d : Settled α} (h : ev.settle? turns pool run = some d) :
    ev.settle? turns pool run.capture = some ⟨.ok d.outcome, d.task, d.store, d.pool⟩ := by
  fun_induction Evaluator.settle? ev turns pool run with
  | case1 | case2 =>
    cases h
    simp only [Run.capture, settle?]
  | case3 | case4 | case6 => cases h
  | case5 turns pool request store resume reply store' hreply ih =>
    simp only [Run.capture, settle?, hreply]
    exact ih h
  | case7 turns pool request store resume hreply pool₁ store₁ hprogress ih =>
    simp only [Run.capture, settle?, hreply, hprogress]
    exact ih h

/-- Whether the method `main` of the class `Main` runs behind a program. -/
def Store.runsMain (s : Store) : Bool :=
  ((s.classes.findMethod? "Main" "main").filter (·.isInit)).isSome

namespace Interpreter

/-- A script that captures another ends with what it makes of the captured outcome. -/
theorem run?_of_capture {α β : Type} {i : Interpreter} {script : Script β} {inner : Script α}
    {t : Task} {s : Store} (report : Except Signal α → Store → Except Signal β)
    (last : Store → Store)
    (h : script i.task i.store =
      (inner t s).capture.bind fun outcome t s => Script.release (report outcome s) t (last s)) :
    i.run? script =
      (Interpreter.run? { i with task := t, store := s } inner).map fun (outcome, j) =>
        (report outcome j.store, { j with store := last j.store }) := by
  simp only [run?, h, Evaluator.settle?_capture, Option.map_map]
  rfl

theorem run?_of_release {α : Type} {i : Interpreter} {script : Script α}
    {outcome : Except Signal α} {t : Task} {s : Store}
    (h : script i.task i.store = Script.release outcome t s) :
    i.run? script = some (outcome, { i with task := t, store := s }) := by
  simp [run?, h, Evaluator.settle?_release]

/-- A script that settles is followed by what settles at once. -/
theorem run?_bind {α β : Type} {i j : Interpreter} {script : Script α} {next : α → Script β}
    {a : α} {outcome : Except Signal β} {t : Task} {s : Store}
    (h : i.run? script = some (.ok a, j))
    (hnext : next a j.task j.store = Script.release outcome t s) :
    i.run? (script >>= next) = some (outcome, { j with task := t, store := s }) := by
  obtain ⟨⟨o, t', s', pool⟩, hsettle, hj⟩ := Option.map_eq_some_iff.mp h
  cases hj
  have hbind := Evaluator.settle?_bind hsettle hnext
  simp only [run?, Bind.bind, Script.bind, hbind, Option.map_some]

theorem run?_capture {α : Type} {i j : Interpreter} {script : Script α}
    {outcome : Except Signal α} (h : i.run? script = some (outcome, j)) :
    i.run? script.capture = some (.ok outcome, j) := by
  obtain ⟨d, hsettle, hj⟩ := Option.map_eq_some_iff.mp h
  cases hj
  simp only [run?, Script.capture, Evaluator.settle?_capture_of_settle hsettle, Option.map_some]

/-- A program of one statement comes to what the statement comes to. -/
theorem execute_of_statement {i j : Interpreter} {stmt : Stmt} {v : Value}
    (hstmt : Evaluator.isDeclaration stmt = false)
    (h : i.run? (i.evaluator.statement stmt) = some (.ok v, j))
    (hmain : j.store.runsMain = false) : i.execute ⟨[stmt]⟩ = (.value v, j) := by
  have hdeclare : Evaluator.declareAll [stmt] = pure () := by
    cases stmt <;> first | rfl | cases hstmt
  have htop : i.run? (i.evaluator.topLevel .nil [stmt]) = some (.ok (v, false), j) := by
    rw [Evaluator.topLevel, hstmt]
    exact run?_bind (run?_capture h)
      (show _ = Script.release (.ok (v, false)) j.task j.store from rfl)
  have hscript : i.run? (i.evaluator.script [stmt]) = some (.ok (v, false), j) := by
    rw [Evaluator.script, hdeclare]
    exact htop
  have hlast : i.run? (i.evaluator.program ⟨[stmt]⟩) = some (.ok v, j) := by
    refine run?_bind hscript ?_
    have hnone : (j.store.classes.findMethod? "Main" "main").filter (·.isInit) = none :=
      Option.isNone_iff_eq_none.mp (Option.isSome_eq_false_iff.mp hmain)
    simp only [Bool.false_eq_true, if_false, Script.store, Bind.bind, Script.bind, Run.bind, hnone]
    rfl
  rw [execute, run, hlast]
  rfl

end Interpreter

end RouteScript
