import RouteScript.Proofs.Scope.WellFormed
import RouteScript.Task.Store

/-!
# Bindings in frames

A scope as a table of what each of its frames binds. Giving a name its value changes one entry of
the table, in the frame that the name belongs to, and no tag.
-/

namespace RouteScript.Scope

/-- All frames, the innermost one first and the globals last. -/
def frames (s : Scope) : List Frame := s.calls ++ [s.globals]

/-- The place of the frame that a name belongs to. -/
def home (name : String) (s : Scope) : Nat := if s.isInner name then 0 else s.calls.length

def binding? (i : Nat) (name : String) (s : Scope) : Option Value :=
  s.frames[i]?.bind fun frame => Dict.get? name frame.vars

def tagAt? (i : Nat) (name : String) (s : Scope) : Option Tag :=
  s.frames[i]?.bind fun frame => Dict.get? name frame.tags

/-- All variables with a tag, in all frames, hold values that their tags accept. -/
def Accepted (store : Store) (s : Scope) : Prop :=
  ∀ i name tag value, s.tagAt? i name = some tag → s.binding? i name = some value →
    store.accepts tag value

variable {s : Scope}

/-- The home of a name is the frame that owns it. -/
theorem frames_home (name : String) (s : Scope) : s.frames[s.home name]? = some (s.owner name) := by
  obtain ⟨globals, calls⟩ := s
  unfold home owner
  split
  · cases calls <;> rfl
  · simp [frames]

theorem get?_eq_binding? (name : String) (s : Scope) :
    s.get? name = s.binding? (s.home name) name := by
  simp [binding?, frames_home, get?]

theorem tag?_eq_tagAt? (name : String) (s : Scope) :
    s.tag? name = s.tagAt? (s.home name) name := by
  simp [tagAt?, frames_home, tag?]

/-- A name that has got a value belongs to the frame that it belonged to before. -/
theorem isInner_set_self (name : String) (value : Value) (s : Scope) :
    (s.set name value).isInner name = s.isInner name := by
  obtain ⟨globals, calls⟩ := s
  unfold set modifyOwner
  split
  · rename_i hinner
    rw [hinner]
    simp [isInner, innermost_modifyInnermost, Dict.contains]
  · rename_i hinner
    cases calls with
    | nil => simp [isInner, innermost] at hinner
    | cons frame rest =>
      simp_all [isInner, innermost, modifyGlobals, Dict.contains, Option.isSome_iff_ne_none]

theorem set_set (name : String) (value later : Value) (s : Scope) :
    (s.set name value).set name later = s.set name later := by
  have hinner := s.isInner_set_self name value
  obtain ⟨globals, calls⟩ := s
  rw [set, modifyOwner, hinner]
  unfold set modifyOwner
  split
  · cases calls <;> simp [modifyInnermost, Dict.insert_insert]
  · simp [modifyGlobals, Dict.insert_insert]

/-- A change of the frame of a name changes the frame at its place. -/
theorem frames_modifyOwner (name : String) (f : Frame → Frame) (s : Scope) :
    (s.modifyOwner name f).frames = s.frames.modify (s.home name) f := by
  obtain ⟨globals, calls⟩ := s
  unfold modifyOwner home
  split
  · cases calls <;> rfl
  · have hlast (l : List Frame) : l ++ [f globals] = (l ++ [globals]).modify l.length f := by
      induction l with
      | nil => rfl
      | cons frame rest ih => simpa using ih
    exact hlast calls

/-- An assignment changes one name in one frame. -/
theorem binding?_set (name : String) (value : Value) (s : Scope) (i : Nat) (other : String) :
    (s.set name value).binding? i other =
      if i = s.home name ∧ other = name then some value else s.binding? i other := by
  unfold binding? set
  rw [frames_modifyOwner, List.getElem?_modify]
  by_cases hi : s.home name = i
  · subst hi
    simp only [frames_home, if_true, Option.bind_some, true_and]
    exact Dict.get?_insert name other value _
  · simp [hi, Ne.symm hi]

/-- An assignment changes no declared type. -/
theorem tagAt?_set (name : String) (value : Value) (s : Scope) (i : Nat) (other : String) :
    (s.set name value).tagAt? i other = s.tagAt? i other := by
  unfold tagAt? set
  rw [frames_modifyOwner, List.getElem?_modify]
  by_cases hi : s.home name = i
  · subst hi
    simp [frames_home]
  · simp [hi]

/-! ## Acceptance -/

/-- Whether a scope is accepted depends on what the store accepts only. -/
theorem accepted_congr {store store' : Store}
    (h : ∀ tag value, store'.accepts tag value = store.accepts tag value) :
    s.Accepted store' ↔ s.Accepted store := by
  simp only [Accepted, h]

/-- A variable with a declared type holds a value that the type accepts. -/
theorem Accepted.of_get? {store : Store} (h : s.Accepted store) {name : String} {tag : Tag}
    {value : Value} (htag : s.tag? name = some tag) (hvalue : s.get? name = some value) :
    store.accepts tag value := by
  rw [tag?_eq_tagAt?] at htag
  rw [get?_eq_binding?] at hvalue
  exact h _ name tag value htag hvalue

/-- Where all values are accepted, a new value is the only one to ask about. -/
theorem Accepted.set_iff {store : Store} (h : s.Accepted store) (name : String) (value : Value) :
    (s.set name value).Accepted store ↔
      ∀ tag, s.tag? name = some tag → store.accepts tag value := by
  unfold Accepted
  simp only [tagAt?_set, binding?_set, tag?_eq_tagAt?]
  constructor
  · intro hset tag htag
    exact hset _ name tag value htag (by simp)
  · intro haccepts i other tag found htag hfound
    split at hfound
    · rename_i hhome
      obtain ⟨rfl, rfl⟩ := hhome
      cases hfound
      exact haccepts tag htag
    · exact h i other tag found htag hfound

end RouteScript.Scope
