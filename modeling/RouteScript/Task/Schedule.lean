import RouteScript.Eval.Perform

/-!
# Scheduling

One task runs at a time. The main task runs until it has to wait. Then the task goes on that waits
longest and need not wait any more; if there is none, the work that was spawned first is started.
-/

namespace RouteScript

structure Sleeper where
  future : Nat
  request : Request
  resume : request.Reply → Store → Run Value

namespace Sleeper

def wake? (t : Sleeper) (s : Store) : Option (Run Value) :=
  (t.request.attempt? s).map fun (reply, s) => t.resume reply s

/-- The first task that can go on, its future, and the tasks that still wait. -/
def wakeFirst? (s : Store) : List Sleeper → Option (Nat × Run Value × List Sleeper)
  | [] => none
  | t :: rest =>
    match t.wake? s with
    | some run => some (t.future, run, rest)
    | none => (wakeFirst? s rest).map fun (future, run, others) => (future, run, t :: others)

/-- Take note of where a task has come to: its outcome is recorded, or it waits. -/
def note (future : Nat) (pool : List Sleeper) : Run Value → List Sleeper × Store
  | .finished (.value v) _ s => (pool, s.settleFuture future (.ok v))
  | .finished (.signal x) _ s => (pool, s.settleFuture future (.error x))
  | .finished .starved _ s => (pool, s)
  | .waiting request s resume => (pool ++ [⟨future, request, resume⟩], s)

end Sleeper

def Evaluator.background? (ev : Evaluator) (pool : List Sleeper) (s : Store) :
    Option (List Sleeper × Store) :=
  match Sleeper.wakeFirst? s pool with
  | some (future, run, pool) => some (Sleeper.note future pool run)
  | none =>
    match s.spawned with
    | [] => none
    | job :: rest =>
      let s := { s with spawned := rest }
      some (Sleeper.note job.future pool (ev.work job.work job.task s))

structure Settled (α : Type) where
  outcome : Except Signal α
  task : Task
  store : Store
  pool : List Sleeper

/-- Run the main task to its end, together with the others. There is no end if all tasks wait for
each other, or if it is not reached in the given number of turns. -/
def Evaluator.settle? {α : Type} (ev : Evaluator) :
    Nat → List Sleeper → Run α → Option (Settled α)
  | _, pool, .finished (.value a) task store => some ⟨.ok a, task, store, pool⟩
  | _, pool, .finished (.signal x) task store => some ⟨.error x, task, store, pool⟩
  | _, _, .finished .starved _ _ => none
  | 0, _, _ => none
  | turns + 1, pool, .waiting request store resume =>
    match request.attempt? store with
    | some (reply, store) => ev.settle? turns pool (resume reply store)
    | none =>
      match ev.background? pool store with
      | none => none
      | some (pool, store) => ev.settle? turns pool (.waiting request store resume)

end RouteScript
