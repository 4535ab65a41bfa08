import RouteScript.Interpreter
import RouteScript.Proofs.Dict

/-!
# Sessions as journals

What a session is meant to be, said without a bag that is changed in place. The session of a request
keeps a journal: the bag that the request came with, and behind it an entry for every `put` and
`forget` that has succeeded, in order. Nothing is ever taken out of the journal. What a session
answers is read off the bag that its entries amount to so far.
-/

namespace RouteScript

inductive SessionChange where
  | put (key : String) (value : Value)
  | forget (key : String)

namespace SessionChange

def apply : SessionChange → Dict Value → Dict Value
  | .put key value => Dict.insert key value
  | .forget key => Dict.erase key

/-- The entry for a change in the journal of a session. The session itself in place of a value means
that the key is forgotten: no script has a handle of a session, so none can put it there. -/
def entry (owner : Nat) : SessionChange → String × Value
  | .put key value => (key, value)
  | .forget key => (key, .object ⟨owner, "Session"⟩)

def ofEntry (owner : Nat) (e : String × Value) : SessionChange :=
  match e.2 with
  | .object ref => if ref.id = owner then .forget e.1 else .put e.1 e.2
  | _ => .put e.1 e.2

def applyAll (changes : List SessionChange) (bag : Dict Value) : Dict Value :=
  changes.foldl (fun bag change => change.apply bag) bag

end SessionChange

def Journal.replay (owner : Nat) (journal : Dict Value) : Dict Value :=
  SessionChange.applyAll (journal.map (SessionChange.ofEntry owner)) []

namespace Service

/-- The methods of a session that keeps a journal, or of none. -/
def onJournal (session : Option ObjectRef) (method : String) (args : List Value) :
    Script Value := do
  let m : Method := ⟨"Session", method⟩
  if method = "constructor" then return .nil
  match session with
  | none => return withoutSession method
  | some current =>
    let bag := Journal.replay current.id ((← Script.store).fields current)
    match method with
    | "get" =>
      let key ← m.text args 0
      return (Dict.get? key bag).getD (args[1]?.getD .nil)
    | "put" =>
      let key ← m.text args 0
      let value ← m.argument args 1
      let change := SessionChange.put key value
      Script.modifyStore (·.modifyFields current (· ++ [change.entry current.id]))
      return .nil
    | "has" =>
      let key ← m.text args 0
      return .bool (Dict.contains key bag)
    | "forget" =>
      let key ← m.text args 0
      let change := SessionChange.forget key
      Script.modifyStore (·.modifyFields current (· ++ [change.entry current.id]))
      return .nil
    | "all" => return .map bag
    | _ => m.unknown

/-- The services that are there from the start, but for sessions, which are left to the host. -/
def journaled : Dict Service := Dict.insert "Session" .external registry

end Service

def Task.session? (t : Task) : Option ObjectRef := Service.injected? Service.sessionGlobal t

def HostHandler.journalOf (session : ObjectRef) : HostHandler := fun _ _ _ method args =>
  Service.onJournal session method args

/-- The host carries out the methods of sessions on the journal of the session that the task works
for. -/
def HostHandler.journal : HostHandler := fun _ _ _ method args => do
  Service.onJournal (← Script.task).session? method args

def Interpreter.journaling (i : Interpreter) : Interpreter :=
  { i with host := .journal, store := { i.store with services := Service.journaled } }

/-! ## Replaying -/

namespace SessionChange

/-- Changes may be made in two legs. -/
theorem applyAll_append (changes later : List SessionChange) (bag : Dict Value) :
    applyAll (changes ++ later) bag = applyAll later (applyAll changes bag) :=
  List.foldl_append ..

/-- Values that are put in one after the other are merged. -/
theorem applyAll_put (entries bag : Dict Value) :
    applyAll (entries.map fun e => .put e.1 e.2) bag = Dict.merge bag entries := by
  rw [applyAll, List.foldl_map]
  rfl

end SessionChange

namespace Journal

variable {owner : Nat}

/-- A journal with further entries amounts to its bag with further changes. -/
theorem replay_append (owner : Nat) (journal entries : Dict Value) :
    replay owner (journal ++ entries) =
      SessionChange.applyAll (entries.map (SessionChange.ofEntry owner))
        (replay owner journal) := by
  rw [replay, List.map_append, SessionChange.applyAll_append]
  rfl

/-- The bag that a request comes with is the journal of itself. -/
theorem replay_of_sorted {bag : Dict Value} (hsorted : Dict.Sorted bag)
    (h : ∀ e ∈ bag, SessionChange.ofEntry owner e = .put e.1 e.2) : replay owner bag = bag := by
  rw [replay, List.map_congr_left h, SessionChange.applyAll_put,
    Dict.merge_eq_append (by simpa using hsorted), List.nil_append]

end Journal

end RouteScript
