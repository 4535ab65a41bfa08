import RouteScript.Eval.Call

/-!
# Frames of a task

What stays in place while a task changes the variables in sight: the frames outside the innermost
one and the receivers of all calls. A call that is left again leaves all frames of its caller.
-/

namespace RouteScript

/-- The scopes have the same frames outside the innermost one, and the same receivers. -/
structure Scope.Framed (s s' : Scope) : Prop where
  outer : s'.calls.tail = s.calls.tail
  receivers : s'.calls.map Frame.this = s.calls.map Frame.this
  globals : s'.globals.this = s.globals.this

namespace Scope

theorem Framed.refl (s : Scope) : s.Framed s := ⟨rfl, rfl, rfl⟩

theorem Framed.trans {s s' s'' : Scope} (h : s.Framed s') (h' : s'.Framed s'') : s.Framed s'' :=
  ⟨h'.outer.trans h.outer, h'.receivers.trans h.receivers, h'.globals.trans h.globals⟩

/-- With the receivers of all calls, the number of frames is the same. -/
theorem Framed.depth_eq {s s' : Scope} (h : s.Framed s') : s'.depth = s.depth := by
  simpa [depth] using congrArg List.length h.receivers

theorem Framed.this_eq {s s' : Scope} (h : s.Framed s') : s'.this = s.this := by
  have hcalls := h.receivers
  unfold Scope.this innermost
  cases hs : s.calls with
  | nil => simp_all [h.globals]
  | cons frame rest =>
    cases hs' : s'.calls with
    | nil => simp_all
    | cons frame' rest' => simp_all

variable {f : Frame → Frame} (hf : ∀ frame, (f frame).this = frame.this)

include hf in
theorem framed_modifyInnermost (s : Scope) : s.Framed (s.modifyInnermost f) := by
  unfold modifyInnermost
  split
  · exact ⟨rfl, rfl, hf _⟩
  · rename_i hcalls
    refine ⟨?_, ?_, rfl⟩
    · simp [hcalls]
    · simp [hcalls, hf]

include hf in
theorem framed_modifyGlobals (s : Scope) : s.Framed (s.modifyGlobals f) := ⟨rfl, rfl, hf _⟩

/-- An assignment keeps the frames, whichever frame the name belongs to. -/
theorem framed_set (name : String) (value : Value) (s : Scope) : s.Framed (s.set name value) := by
  unfold set modifyOwner
  split
  · exact framed_modifyInnermost (by simp) s
  · exact framed_modifyGlobals (by simp) s

/-- A declaration goes into the innermost frame and keeps the frames below it. -/
theorem framed_declare (name : String) (value : Value) (tag : Option Tag) (s : Scope) :
    s.Framed (s.declare name value tag) :=
  framed_modifyInnermost (by simp) s

theorem framed_setGlobal (name : String) (value : Value) (s : Scope) :
    s.Framed (s.setGlobal name value) :=
  framed_modifyGlobals (by simp) s

end Scope

/-- The tasks carry out the same calls, in the same frames outside the innermost one. -/
structure Task.Framed (t t' : Task) : Prop where
  calls : t'.calls = t.calls
  scope : t.scope.Framed t'.scope

namespace Task

theorem Framed.refl (t : Task) : t.Framed t := ⟨rfl, .refl _⟩

theorem Framed.trans {t t' t'' : Task} (h : t.Framed t') (h' : t'.Framed t'') : t.Framed t'' :=
  ⟨h'.calls.trans h.calls, h.scope.trans h'.scope⟩

/-- The tasks carry out the same calls in the same frames. Only globals may differ. -/
structure Isolated (t t' : Task) : Prop where
  calls : t'.calls = t.calls
  frames : t'.scope.calls = t.scope.calls
  globals : t'.scope.globals.this = t.scope.globals.this

theorem Isolated.refl (t : Task) : t.Isolated t := ⟨rfl, rfl, rfl⟩

/-- With all frames of its calls, a task keeps those outside the innermost one. -/
theorem Isolated.framed {t t' : Task} (h : t.Isolated t') : t.Framed t' :=
  ⟨h.calls, by rw [h.frames], by rw [h.frames], h.globals⟩

/-- What stays in place during a call is what the caller had. -/
theorem Framed.isolated_leave {t t' : Task} {this : Option Value} (h : (t.enter this).Framed t') :
    t.Isolated t'.leave where
  calls := by simp [leave, enter, h.calls]
  frames := by simpa [leave, enter, Scope.push, Scope.pop] using h.scope.outer
  globals := h.scope.globals

end Task

end RouteScript
