import RouteScript.Fault

/-!
# Class tables

A class table lists the classes in the order of their first registration. The link from a class to
its parent is renewed for all classes whenever a script declares one; a class that the host adds
does not renew the links of the others.
-/

namespace RouteScript

/-- A registered class. A hosted class has methods that the host carries out. -/
structure ClassEntry where
  decl : ClassDecl
  parent : Option Nat := none
  hosted : Bool := false

theorem ClassEntry.get?_nil_eq_findIdx? (name : String) :
    Dict.get? name ([] : Dict Nat) =
      (([] : List ClassEntry).map (·.decl.name)).findIdx? (· == name) :=
  rfl

structure ClassTable where
  entries : List ClassEntry := []
  byName : Dict Nat := []
  /-- A name leads to the first class that carries it. -/
  get?_byName : ∀ name, Dict.get? name byName =
    (entries.map (·.decl.name)).findIdx? (· == name) := by
      exact ClassEntry.get?_nil_eq_findIdx?

namespace ClassTable

def size (t : ClassTable) : Nat := t.entries.length

def names (t : ClassTable) : List String := t.entries.map (·.decl.name)

def indexOf? (name : String) (t : ClassTable) : Option Nat := Dict.get? name t.byName

def get? (name : String) (t : ClassTable) : Option ClassEntry :=
  (t.indexOf? name).bind fun i => t.entries[i]?

def contains (name : String) (t : ClassTable) : Bool := (t.indexOf? name).isSome

theorem indexOf?_eq (name : String) (t : ClassTable) :
    t.indexOf? name = t.names.findIdx? (· == name) :=
  t.get?_byName name

theorem indexOf?_spec {t : ClassTable} {name : String} {i : Nat} (h : t.indexOf? name = some i) :
    ∃ e, t.entries[i]? = some e ∧ e.decl.name = name := by
  rw [indexOf?_eq] at h
  obtain ⟨hi, hname, -⟩ := List.findIdx?_eq_some_iff_getElem.mp h
  have hlt : i < t.entries.length := by simpa [names] using hi
  exact ⟨t.entries[i], List.getElem?_eq_getElem hlt, by simpa [names] using hname⟩

/-! ## Changes that keep the index -/

def map (f : ClassEntry → ClassEntry) (hf : ∀ e, (f e).decl.name = e.decl.name)
    (t : ClassTable) : ClassTable where
  entries := t.entries.map f
  byName := t.byName
  get?_byName name := by simp [t.get?_byName, Function.comp_def, hf]

def modifyAt (i : Nat) (f : ClassEntry → ClassEntry) (t : ClassTable)
    (hf : ∀ e ∈ t.entries[i]?, (f e).decl.name = e.decl.name) : ClassTable where
  entries := t.entries.modify i f
  byName := t.byName
  get?_byName name := by
    have hnames : (t.entries.modify i f).map (·.decl.name) = t.entries.map (·.decl.name) := by
      refine List.ext_getElem? fun k => ?_
      rw [List.getElem?_map, List.getElem?_map, List.getElem?_modify]
      cases he : t.entries[k]? with
      | none => rfl
      | some e =>
        by_cases hk : i = k
        · subst hk
          simp [hf e he]
        · simp [hk]
    rw [t.get?_byName, hnames]

def push (e : ClassEntry) (t : ClassTable) (hnew : t.indexOf? e.decl.name = none) :
    ClassTable where
  entries := t.entries ++ [e]
  byName := Dict.insert e.decl.name t.size t.byName
  get?_byName name := by
    rw [Dict.get?_insert, List.map_append, List.findIdx?_append, ← t.get?_byName]
    by_cases h : name = e.decl.name
    · have hnone : Dict.get? e.decl.name t.byName = none := hnew
      simp [h, hnone, size]
    · simp [h, Ne.symm h]

/-- Change the class that has the name of an entry, which it keeps. If there is none, add the
entry. -/
def upsert (e : ClassEntry) (f : ClassEntry → ClassEntry)
    (hf : ∀ old, old.decl.name = e.decl.name → (f old).decl.name = e.decl.name)
    (t : ClassTable) : ClassTable :=
  match h : t.indexOf? e.decl.name with
  | some i => t.modifyAt i f fun old hold => by
    obtain ⟨_, hget, hname⟩ := indexOf?_spec h
    cases hget.symm.trans hold
    exact (hf old hname).trans hname.symm
  | none => t.push e h

/-- Register a class without members that the host carries out, or let the host carry out a class
that is there already. -/
def addHosted (name : String) (t : ClassTable) : ClassTable :=
  t.upsert { decl := .bare name, hosted := true } ({ · with hosted := true }) fun _ h => h

/-- Whether the declared parents, starting with `next`, lead to the class `goal`. More steps than
there are classes go round in a circle. -/
def leadsTo (goal : String) (t : ClassTable) : Nat → Option String → Bool
  | _, none => false
  | 0, some _ => true
  | steps + 1, some name =>
    name == goal || leadsTo goal t steps ((t.get? name).bind (·.decl.parent))

def relink (t : ClassTable) : ClassTable :=
  t.map (fun e => { e with parent := e.decl.parent.bind t.indexOf? }) fun _ => rfl

def put (decl : ClassDecl) (t : ClassTable) : ClassTable :=
  t.upsert { decl := decl } ({ · with decl }) fun _ _ => rfl

/-- Register a declaration. One that would make a class its own ancestor is refused. -/
def register (decl : ClassDecl) (t : ClassTable) : Except Fault ClassTable :=
  if t.leadsTo decl.name (t.size + 1) decl.parent then .error (.inheritanceCycle decl.name)
  else .ok (t.put decl).relink

/-- The classes on the way from a place along the links, at most `steps` of them. -/
def chainFrom (t : ClassTable) : Nat → Option Nat → List ClassEntry
  | 0, _ => []
  | _, none => []
  | steps + 1, some index =>
    match t.entries[index]? with
    | none => []
    | some e => e :: chainFrom t steps e.parent

def chain (name : String) (t : ClassTable) : List ClassEntry :=
  t.chainFrom (t.size + 1) (t.indexOf? name)

def findMethod? (className method : String) (t : ClassTable) : Option FunctionDecl :=
  (t.chain className).findSome? (·.decl.method? method)

def hostedAncestor? (className : String) (t : ClassTable) : Option String :=
  ((t.chain className).find? (·.hosted)).map (·.decl.name)

def isA (className ancestor : String) (t : ClassTable) : Bool :=
  (t.chain className).any (·.decl.name == ancestor)

/-- A method of a class; for a class with a hosted ancestor, every other name is a method that the
host carries out. -/
def resolve? (className method : String) (t : ClassTable) : Option FunctionDecl :=
  (t.findMethod? className method).or
    ((t.hostedAncestor? className).map fun _ => .hosted method)

end ClassTable

end RouteScript
