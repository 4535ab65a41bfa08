import RouteScript.Fault

/-!
# Channels

A channel is a queue between tasks. Its operations are single steps: a step that has to wait gives
nothing, and is tried again after something has changed. A channel without capacity holds one value
at a time, and its sender waits with a ticket until that value has been taken.

The counters of a channel are natural numbers. Counters of 64 bits would show the same as long as
fewer than 2⁶⁴ values pass; what happens beyond that is not described here.
-/

namespace RouteScript

/-- A queue of values with the numbers of values accepted and taken so far. -/
structure Channel where
  capacity : Nat
  queue : List Value := []
  closed : Bool := false
  sent : Nat := 0
  received : Nat := 0

namespace Channel

def limit (c : Channel) : Nat := max c.capacity 1

def size (c : Channel) : Nat := c.queue.length

def isFull (c : Channel) : Bool := decide (c.limit ≤ c.size)

/-- Accept a value. A full channel makes the sender wait, a closed one refuses. The number of the
value is its ticket. -/
def offer? (value : Value) (c : Channel) : Option (Except Fault (Nat × Channel)) :=
  if c.closed then some (.error .channelClosed)
  else if c.isFull then none
  else some (.ok (c.sent + 1, { c with queue := c.queue ++ [value], sent := c.sent + 1 }))

def isSettled (ticket : Nat) (c : Channel) : Bool :=
  c.capacity != 0 || ticket ≤ c.received || c.closed

/-- Take the first value. An empty channel makes the receiver wait, and ends once it is closed. -/
def take? (c : Channel) : Option (Option Value × Channel) :=
  match c.queue with
  | value :: rest => some (some value, { c with queue := rest, received := c.received + 1 })
  | [] => if c.closed then some (none, c) else none

def close (c : Channel) : Except Fault Channel :=
  if c.closed then .error (.invalid .closedTwice) else .ok { c with closed := true }

def dump (c : Channel) : String :=
  "Channel \x7b capacity: " ++ toString c.capacity ++ ", buffered: " ++ toString c.size ++
    ", closed: " ++ (if c.closed then "true" else "false") ++ " \x7d"

end Channel

end RouteScript
