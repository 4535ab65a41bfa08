import RouteScript.Value.Tag

/-!
# Scopes

A scope has a frame of globals and one frame for every call that is being carried out. Only two of
them are in sight: the globals, and the innermost frame, whose names hide the globals.
-/

namespace RouteScript

structure Frame where
  vars : Dict Value := []
  tags : Dict Tag := []
  this : Option Value := none

structure Scope where
  globals : Frame := {}
  calls : List Frame := []

namespace Scope

def depth (s : Scope) : Nat := s.calls.length

def innermost (s : Scope) : Frame := s.calls.headD s.globals

def modifyInnermost (f : Frame → Frame) (s : Scope) : Scope :=
  match s.calls with
  | [] => { s with globals := f s.globals }
  | frame :: rest => { s with calls := f frame :: rest }

def modifyGlobals (f : Frame → Frame) (s : Scope) : Scope :=
  { s with globals := f s.globals }

def push (this : Option Value) (s : Scope) : Scope :=
  { s with calls := { this := this } :: s.calls }

def pop (s : Scope) : Scope := { s with calls := s.calls.tail }

/-- Whether a name belongs to the innermost frame: it is bound there, or it is bound nowhere in
sight. -/
def isInner (name : String) (s : Scope) : Bool :=
  Dict.contains name s.innermost.vars || !Dict.contains name s.globals.vars

def owner (name : String) (s : Scope) : Frame :=
  if s.isInner name then s.innermost else s.globals

def modifyOwner (name : String) (f : Frame → Frame) (s : Scope) : Scope :=
  if s.isInner name then s.modifyInnermost f else s.modifyGlobals f

def get? (name : String) (s : Scope) : Option Value := Dict.get? name (s.owner name).vars

def contains (name : String) (s : Scope) : Bool := (s.get? name).isSome

def tag? (name : String) (s : Scope) : Option Tag := Dict.get? name (s.owner name).tags

def set (name : String) (value : Value) (s : Scope) : Scope :=
  s.modifyOwner name fun frame => { frame with vars := Dict.insert name value frame.vars }

def declare (name : String) (value : Value) (tag : Option Tag) (s : Scope) : Scope :=
  s.modifyInnermost fun frame =>
    { frame with
      vars := Dict.insert name value frame.vars
      tags := tag.elim (Dict.erase name frame.tags) (Dict.insert name · frame.tags) }

def global? (name : String) (s : Scope) : Option Value := Dict.get? name s.globals.vars

def setGlobal (name : String) (value : Value) (s : Scope) : Scope :=
  s.modifyGlobals fun frame => { frame with vars := Dict.insert name value frame.vars }

def eraseGlobal (name : String) (s : Scope) : Scope :=
  s.modifyGlobals fun frame => { frame with vars := Dict.erase name frame.vars }

def this (s : Scope) : Option Value := s.innermost.this

/-- Everything in sight as one frame: the globals with the innermost frame written over them. -/
def visible (s : Scope) : Frame where
  vars := Dict.merge s.globals.vars s.innermost.vars
  tags := Dict.merge s.globals.tags s.innermost.tags
  this := s.this

/-- A scope of its own for a task: what is in sight becomes its globals. -/
def fork (s : Scope) : Scope := { globals := s.visible }

end Scope

end RouteScript
