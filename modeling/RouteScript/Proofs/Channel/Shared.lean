import Mathlib.Logic.Function.Basic
import Mathlib.Tactic.Simps.Basic
import RouteScript.Channel

/-!
# A channel that threads share

Threads call `send`, `recv` and `close` on one channel. A call goes on in turns. In a turn its
thread holds the channel alone until the call returns or has to wait; a turn of a call that still
has to wait changes nothing. A schedule lists who acts, one action after another, so that the
schedules are all the interleavings of all the threads.

Next to the channel stands what has happened on it: which calls of `send` the values in the queue
belong to, which of them have had their value taken, and how calls went.
-/

namespace RouteScript.Channel

inductive Operation where
  | send (value : Value)
  | recv
  | close

/-- A call of `send`. The calls are numbered, so equal values of one sender are told apart. -/
structure Message (ι : Type) where
  sender : ι
  number : Nat
  value : Value

inductive Phase (ι : Type) where
  | idle
  /-- The value of a call has not been accepted yet. -/
  | offering (m : Message ι)
  /-- The value of a call has been accepted, and the sender waits with its ticket. -/
  | settling (m : Message ι) (ticket : Nat)
  | taking
  | closing

inductive Event (ι : Type) where
  | accepted (m : Message ι)
  | refused (m : Message ι) (fault : Fault)
  /-- A call of `send` returned without a fault, from a channel that was closed or not. -/
  | confirmed (m : Message ι) (closed : Bool)
  | received (thread : ι) (value : Value)
  /-- A call of `recv` reported the end of the stream. -/
  | ended (thread : ι)
  | closed (thread : ι)
  | closeFailed (thread : ι) (fault : Fault)

def Event.accepted? {ι : Type} : Event ι → Option (Message ι)
  | .accepted m => some m
  | _ => none

def Event.received? {ι : Type} : Event ι → Option Value
  | .received _ value => some value
  | _ => none

structure Shared (ι : Type) where
  channel : Channel
  phase : ι → Phase ι := fun _ => .idle
  /-- How often `send` has been called. -/
  calls : Nat := 0
  /-- The calls whose values stand in the queue. -/
  line : List (Message ι) := []
  /-- The calls whose values have been taken. -/
  taken : List (Message ι) := []
  history : List (Event ι) := []

/-- Who acts next: a thread without a call begins one, or a thread goes on with its call. -/
inductive Action (ι : Type) where
  | call (thread : ι) (operation : Operation)
  | turn (thread : ι)

namespace Shared

variable {ι : Type}

/-- The calls whose values have been accepted, in that order. -/
def accepted (s : Shared ι) : List (Message ι) := s.history.filterMap Event.accepted?

def received (s : Shared ι) : List Value := s.history.filterMap Event.received?

@[simps]
def record (e : Event ι) (s : Shared ι) : Shared ι := { s with history := s.history ++ [e] }

/-- The value of a call has gone into the channel, which is `c` from now on. -/
def accept (m : Message ι) (c : Channel) (s : Shared ι) : Shared ι :=
  { s with channel := c, line := s.line ++ [m] }.record (.accepted m)

def deliver (i : ι) (value : Value) (c : Channel) (s : Shared ι) : Shared ι :=
  { s with channel := c, line := s.line.drop 1, taken := s.taken ++ s.line.take 1 }.record
    (.received i value)

variable [DecidableEq ι]

@[simps]
def enter (i : ι) (p : Phase ι) (s : Shared ι) : Shared ι :=
  { s with phase := Function.update s.phase i p }

def begin (i : ι) (s : Shared ι) : Operation → Shared ι
  | .send value => { s with calls := s.calls + 1 }.enter i (.offering ⟨i, s.calls, value⟩)
  | .recv => s.enter i .taking
  | .close => s.enter i .closing

def finish (i : ι) (e : Event ι) (s : Shared ι) : Shared ι := (s.record e).enter i .idle

/-- A sender returns if its value needs no more waiting, and waits otherwise. -/
def settle (i : ι) (m : Message ι) (ticket : Nat) (s : Shared ι) : Shared ι :=
  if s.channel.isSettled ticket then s.finish i (.confirmed m s.channel.closed)
  else s.enter i (.settling m ticket)

/-- A sender hands its value to the channel, and goes on to wait for a receiver. -/
def offer (i : ι) (m : Message ι) (s : Shared ι) : Shared ι :=
  match s.channel.offer? m.value with
  | none => s
  | some (.error fault) => s.finish i (.refused m fault)
  | some (.ok (ticket, c)) => (s.accept m c).settle i m ticket

/-- A receiver takes the first value, or finds the end of the stream. -/
def take (i : ι) (s : Shared ι) : Shared ι :=
  match s.channel.take? with
  | none => s
  | some (none, c) => { s with channel := c }.finish i (.ended i)
  | some (some value, c) => (s.deliver i value c).enter i .idle

def shut (i : ι) (s : Shared ι) : Shared ι :=
  match s.channel.close with
  | .error fault => s.finish i (.closeFailed i fault)
  | .ok c => { s with channel := c }.finish i (.closed i)

def turn (i : ι) (s : Shared ι) : Shared ι :=
  match s.phase i with
  | .idle => s
  | .offering m => s.offer i m
  | .settling m ticket => s.settle i m ticket
  | .taking => s.take i
  | .closing => s.shut i

/-- One action. A thread that is in a call cannot begin another one. -/
def act (s : Shared ι) : Action ι → Shared ι
  | .call i operation =>
    match s.phase i with
    | .idle => s.begin i operation
    | _ => s
  | .turn i => s.turn i

def run (capacity : Nat) (schedule : List (Action ι)) : Shared ι :=
  schedule.foldl act { channel := { capacity := capacity } }

end Shared

end RouteScript.Channel
