import RouteScript.Proofs.Dict
import RouteScript.Scope

/-!
# Well-formed scopes

The entries of every frame are in order, and only names that are bound have tags. All changes of a
scope keep this. The value of a name and its tag come from the same frame.
-/

namespace RouteScript

/-- The entries of a frame are in order, and only names that are bound have tags. -/
structure Frame.WellFormed (frame : Frame) : Prop where
  vars : Dict.Sorted frame.vars
  tags : Dict.Sorted frame.tags
  bound : ∀ name, Dict.get? name frame.vars = none → Dict.get? name frame.tags = none

namespace Frame

def bind (name : String) (value : Value) (frame : Frame) : Frame :=
  { frame with vars := Dict.insert name value frame.vars }

/-- The frame with a value and a tag for a name, or with a value only. -/
def bindTagged (name : String) (value : Value) (tag : Option Tag) (frame : Frame) : Frame :=
  { frame with
    vars := Dict.insert name value frame.vars
    tags := tag.elim (Dict.erase name frame.tags) (Dict.insert name · frame.tags) }

theorem WellFormed.fresh (this : Option Value) : WellFormed { this := this } where
  vars := .nil
  tags := .nil
  bound _ _ := rfl

theorem WellFormed.bind {frame : Frame} (h : frame.WellFormed) (name : String) (value : Value) :
    (frame.bind name value).WellFormed where
  vars := h.vars.insert name value
  tags := h.tags
  bound other hother := by
    simp only [Frame.bind, Dict.get?_insert] at hother
    split at hother
    · cases hother
    · exact h.bound other hother

/-- The tag of a name after a binding: the binding decides about its own name. -/
theorem WellFormed.get?_tags_bindTagged {frame : Frame} (h : frame.WellFormed) (name : String)
    (value : Value) (tag : Option Tag) (other : String) :
    Dict.get? other (frame.bindTagged name value tag).tags =
      if other = name then tag else Dict.get? other frame.tags := by
  cases tag with
  | none =>
    split
    · rename_i hother
      subst hother
      exact Dict.get?_erase_self h.tags
    · rename_i hother
      exact Dict.get?_erase_of_ne hother _
  | some tag => exact Dict.get?_insert name other tag frame.tags

/-- A declaration keeps the names of a frame in order, with or without a type. -/
theorem WellFormed.bindTagged {frame : Frame} (h : frame.WellFormed) (name : String)
    (value : Value) (tag : Option Tag) : (frame.bindTagged name value tag).WellFormed where
  vars := h.vars.insert name value
  tags := by
    cases tag with
    | none => exact h.tags.erase name
    | some tag => exact h.tags.insert name tag
  bound other hother := by
    simp only [Frame.bindTagged, Dict.get?_insert] at hother
    split at hother
    · cases hother
    · rename_i hne
      rw [h.get?_tags_bindTagged, if_neg hne]
      exact h.bound other hother

end Frame

structure Scope.WellFormed (s : Scope) : Prop where
  globals : s.globals.WellFormed
  calls : ∀ frame ∈ s.calls, frame.WellFormed

namespace Scope

variable {s : Scope}

namespace WellFormed

theorem empty : WellFormed {} := ⟨.fresh none, by simp⟩

theorem innermost (h : s.WellFormed) : s.innermost.WellFormed := by
  unfold Scope.innermost
  cases hcalls : s.calls with
  | nil => exact h.globals
  | cons frame rest => exact h.calls frame (hcalls ▸ List.mem_cons_self ..)

/-- The frame that a name belongs to is one of the scope. -/
theorem owner (h : s.WellFormed) (name : String) : (s.owner name).WellFormed := by
  unfold Scope.owner
  split
  · exact h.innermost
  · exact h.globals

section Modify

variable {f : Frame → Frame} (hf : ∀ frame : Frame, frame.WellFormed → (f frame).WellFormed)
include hf

theorem modifyInnermost (h : s.WellFormed) : (s.modifyInnermost f).WellFormed := by
  unfold Scope.modifyInnermost
  split
  · exact ⟨hf _ h.globals, h.calls⟩
  · rename_i frame rest hcalls
    have hframes := h.calls
    simp only [hcalls, List.mem_cons, forall_eq_or_imp] at hframes
    exact ⟨h.globals, by simpa using ⟨hf frame hframes.1, hframes.2⟩⟩

theorem modifyGlobals (h : s.WellFormed) : (s.modifyGlobals f).WellFormed :=
  ⟨hf _ h.globals, h.calls⟩

theorem modifyOwner (h : s.WellFormed) (name : String) : (s.modifyOwner name f).WellFormed := by
  unfold Scope.modifyOwner
  split
  · exact h.modifyInnermost hf
  · exact h.modifyGlobals hf

end Modify

theorem push (h : s.WellFormed) (this : Option Value) : (s.push this).WellFormed :=
  ⟨h.globals, by simpa [Scope.push] using ⟨.fresh this, h.calls⟩⟩

theorem pop (h : s.WellFormed) : s.pop.WellFormed :=
  ⟨h.globals, fun frame hframe => h.calls frame (List.mem_of_mem_tail hframe)⟩

/-- An assignment keeps a scope well-formed. -/
theorem set (h : s.WellFormed) (name : String) (value : Value) : (s.set name value).WellFormed :=
  h.modifyOwner (fun _ hframe => hframe.bind name value) name

theorem declare (h : s.WellFormed) (name : String) (value : Value) (tag : Option Tag) :
    (s.declare name value tag).WellFormed :=
  h.modifyInnermost fun _ hframe => hframe.bindTagged name value tag

theorem setGlobal (h : s.WellFormed) (name : String) (value : Value) :
    (s.setGlobal name value).WellFormed :=
  h.modifyGlobals fun _ hframe => hframe.bind name value

end WellFormed

/-! ## What is in sight -/

/-- The value of a name is looked for in the innermost frame, then among the globals. -/
theorem get?_eq_or (name : String) (s : Scope) :
    s.get? name = (Dict.get? name s.innermost.vars).or (Dict.get? name s.globals.vars) := by
  unfold get? owner isInner Dict.contains
  cases hinner : Dict.get? name s.innermost.vars with
  | some v => simp [hinner]
  | none => cases hglobal : Dict.get? name s.globals.vars <;> simp [hinner, hglobal]

/-- The tag of a name comes from the frame that has its value. -/
theorem WellFormed.tag?_eq (h : s.WellFormed) (name : String) :
    s.tag? name = if Dict.contains name s.innermost.vars then Dict.get? name s.innermost.tags
      else Dict.get? name s.globals.tags := by
  unfold tag? Scope.owner isInner
  by_cases hinner : Dict.contains name s.innermost.vars
  · simp [hinner]
  · by_cases hglobal : Dict.contains name s.globals.vars
    · simp [hinner, hglobal]
    · -- a name that is bound nowhere has no tag anywhere
      have hnone {frame : Frame} (hframe : frame.WellFormed)
          (hbound : ¬ Dict.contains name frame.vars) : Dict.get? name frame.tags = none :=
        hframe.bound name (by simpa [Dict.contains] using hbound)
      simp [hinner, hglobal, hnone h.innermost hinner, hnone h.globals hglobal]

theorem innermost_modifyInnermost (f : Frame → Frame) (s : Scope) :
    (s.modifyInnermost f).innermost = f s.innermost := by
  obtain ⟨globals, calls⟩ := s
  cases calls <;> rfl

/-- A declaration is made in the innermost frame. -/
theorem innermost_declare (name : String) (value : Value) (tag : Option Tag) (s : Scope) :
    (s.declare name value tag).innermost = s.innermost.bindTagged name value tag :=
  innermost_modifyInnermost _ s

/-- A name reads as what was assigned to it. -/
theorem get?_set_self (name : String) (value : Value) (s : Scope) :
    (s.set name value).get? name = some value := by
  obtain ⟨globals, calls⟩ := s
  rw [get?_eq_or]
  unfold set modifyOwner
  split
  · simp [innermost_modifyInnermost]
  · rename_i hinner
    -- the name is bound among the globals, so that the innermost frame is another one
    cases calls with
    | nil => simp [isInner, innermost] at hinner
    | cons frame rest =>
      simp only [isInner, innermost, List.headD_cons, Bool.or_eq_true, not_or] at hinner
      have hnone : Dict.get? name frame.vars = none := by simpa [Dict.contains] using hinner.1
      simp [modifyGlobals, innermost, hnone]

end Scope

end RouteScript
