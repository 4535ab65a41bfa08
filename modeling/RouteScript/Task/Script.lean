import RouteScript.Task.Store

/-!
# Running tasks

A running task works on its own variables and on the shared store until it finishes or has to wait
for a channel or a future. While it waits, other tasks may change the store; its own variables stay
as they are.
-/

namespace RouteScript

inductive Request where
  /-- That a channel accepts a value. -/
  | offer (channel : Nat) (value : Value)
  /-- That the value with a ticket has been taken from a channel. -/
  | settle (channel ticket : Nat)
  /-- That a channel has a value or is closed. -/
  | take (channel : Nat)
  /-- That the outcome of a future is known. -/
  | await (future : Nat)

namespace Request

def Reply : Request → Type
  | .offer .. => Except Fault Nat
  | .settle .. => Unit
  | .take _ => Option Value
  | .await _ => Except Signal Value

def attempt? : (r : Request) → Store → Option (r.Reply × Store)
  | .offer channel value, s =>
    match s.channels[channel]? with
    | none => none
    | some c =>
      (c.offer? value).map fun
        | .error fault => (.error fault, s)
        | .ok (ticket, c) =>
          (.ok ticket, { s with channels := s.channels.setIfInBounds channel c })
  | .settle channel ticket, s =>
    match s.channels[channel]? with
    | none => none
    | some c => if c.isSettled ticket then some ((), s) else none
  | .take channel, s =>
    match s.channels[channel]? with
    | none => none
    | some c =>
      c.take?.map fun (value, c) =>
        (value, { s with channels := s.channels.setIfInBounds channel c })
  | .await future, s => (s.futures.getD future none).map fun outcome => (outcome, s)

end Request

/-- How a task ends: with a value, with a signal, or not within the allowed number of steps. -/
inductive Outcome (α : Type) where
  | value (result : α)
  | signal (signal : Signal)
  | starved

inductive Run (α : Type) where
  | finished (outcome : Outcome α) (task : Task) (store : Store)
  | waiting (request : Request) (store : Store) (resume : request.Reply → Store → Run α)

namespace Run

variable {α β : Type}

def bind (next : α → Task → Store → Run β) : Run α → Run β
  | .finished (.value a) task store => next a task store
  | .finished (.signal x) task store => .finished (.signal x) task store
  | .finished .starved task store => .finished .starved task store
  | .waiting request store resume =>
    .waiting request store fun reply store => (resume reply store).bind next

def capture : Run α → Run (Except Signal α)
  | .finished (.value a) task store => .finished (.value (.ok a)) task store
  | .finished (.signal x) task store => .finished (.value (.error x)) task store
  | .finished .starved task store => .finished .starved task store
  | .waiting request store resume =>
    .waiting request store fun reply store => (resume reply store).capture

end Run

def Script (α : Type) : Type := Task → Store → Run α

namespace Script

variable {α β : Type}

protected def pure (a : α) : Script α := fun task store => .finished (.value a) task store

protected def bind (m : Script α) (next : α → Script β) : Script β :=
  fun task store => (m task store).bind next

instance : Monad Script where
  pure := Script.pure
  bind := Script.bind

def signal (x : Signal) : Script α := fun task store => .finished (.signal x) task store

def fail (fault : Fault) : Script α := signal (.failed fault)

def starve : Script α := fun task store => .finished .starved task store

def capture (m : Script α) : Script (Except Signal α) :=
  fun task store => (m task store).capture

def release : Except Signal α → Script α
  | .ok a => pure a
  | .error x => signal x

def ofExcept : Except Fault α → Script α
  | .ok a => pure a
  | .error fault => fail fault

instance : MonadLift (Except Fault) Script where
  monadLift := ofExcept

def task : Script Task := fun task store => .finished (.value task) task store

def store : Script Store := fun task store => .finished (.value store) task store

def modifyTask (f : Task → Task) : Script Unit :=
  fun task store => .finished (.value ()) (f task) store

def modifyStore (f : Store → Store) : Script Unit :=
  fun task store => .finished (.value ()) task (f store)

def update (f : Store → α × Store) : Script α :=
  fun task store =>
    let (a, store) := f store
    .finished (.value a) task store

def request (r : Request) : Script r.Reply :=
  fun task store =>
    match r.attempt? store with
    | some (reply, store) => .finished (.value reply) task store
    | none => .waiting r store fun reply store => .finished (.value reply) task store

def scope : Script Scope := do return (← task).scope

def modifyScope (f : Scope → Scope) : Script Unit :=
  modifyTask fun t => { t with scope := f t.scope }

def write (text : String) : Script Unit := modifyStore (·.write text)

/-- Do rounds as long as they ask for another one, but at most `n` of them. -/
def repeatWhile : Nat → Script Bool → Script Unit
  | 0, _ => starve
  | n + 1, round => do
    if ← round then repeatWhile n round else return ()

/-- Do rounds with a running value as long as they give another one, but at most `n` of them. -/
def iterate : Nat → (α → Script (Option α)) → α → Script Unit
  | 0, _, _ => starve
  | n + 1, round, a => do
    match ← round a with
    | some next => iterate n round next
    | none => return ()

def forWhile (f : α → Script Bool) : List α → Script Unit
  | [] => return ()
  | a :: rest => do
    if ← f a then forWhile f rest else return ()

def each (f : α → Script β) : List α → Script (List β)
  | [] => return []
  | a :: rest => do
    let b ← f a
    return b :: (← each f rest)

end Script

end RouteScript
