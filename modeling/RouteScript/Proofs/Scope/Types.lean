import Mathlib.Data.List.Forall2
import Mathlib.Logic.Function.Basic
import RouteScript.Proofs.Scope.WellFormed
import RouteScript.Task.Store
import RouteScript.Value.Element

/-!
# Declared types in scopes

A variable with a strict tag holds a value that the tag accepts by its kind. In the frames of calls,
names may be exempt from this: their variables may also be nil, or a container that storing elements
has made of nil.
-/

namespace RouteScript

/-! ## Tags -/

/-- Whether the kind of a value decides if a tag accepts it, and nil is not accepted. -/
def Tag.isStrict : Tag → Bool
  | .int | .float | .string | .bool | .array | .map | .channel => true
  | .mixed | .object | .instance _ => false

def Value.growsFromNil (v : Value) : Bool := [Kind.nil, .array, .map].contains v.kind

/-- Whether a value respects a tag. With an exemption, so do nil and what it may become. -/
def Tag.suits (exempt : Bool) (tag : Tag) (value : Value) : Bool :=
  !tag.isStrict || tag.accepts? value == some true || exempt && value.growsFromNil

/-- What the store accepts for a type suits it. -/
theorem Store.suits_of_accepts {s : Store} {tag : Tag} {value : Value} (h : s.accepts tag value)
    (exempt : Bool) : tag.suits exempt value := by
  cases tag <;> simp_all [accepts, Tag.accepts?, Tag.suits, Tag.isStrict]

namespace Tag

variable {tag : Tag} {exempt exempt' : Bool} {v v' : Value}

/-- Nil suits a type that is not strict, and any type where the name is exempt. -/
@[simp] theorem suits_nil : tag.suits exempt .nil = (!tag.isStrict || exempt) := by
  cases tag <;> simp [suits, isStrict, accepts?, Value.kind, Value.growsFromNil]

theorem suits_mono (h : exempt → exempt') (hv : tag.suits exempt v) : tag.suits exempt' v := by
  simp only [suits, Bool.or_eq_true, Bool.and_eq_true] at hv ⊢
  exact hv.imp_right fun hv => ⟨h hv.1, hv.2⟩

/-- A strict type accepts what suits it without an exemption. -/
theorem accepts?_of_suits (hstrict : tag.isStrict) (hv : tag.suits false v) :
    tag.accepts? v = some true := by
  simpa [suits, hstrict] using hv

/-- Whether a value suits a type depends on its kind only. -/
theorem suits_of_kind_eq (h : v'.kind = v.kind) (hv : tag.suits exempt v) :
    tag.suits exempt v' := by
  cases tag <;> simp_all [suits, isStrict, accepts?, Value.growsFromNil]

/-- Preparing a container never leaves its declared type. -/
theorem suits_prepared (key : Option Value) (hv : tag.suits exempt v) :
    tag.suits exempt (v.prepared key) := by
  cases v with
  | nil =>
    have hgrows : (Value.nil.prepared key).growsFromNil := by
      rcases key with _ | key
      · rfl
      · cases key <;> rfl
    rw [suits_nil, Bool.or_eq_true] at hv
    rcases hv with hstrict | hexempt
    · simp [suits, hstrict]
    · simp [suits, hexempt, hgrows]
  | _ => exact hv

end Tag

/-! ## Frames -/

namespace Frame

/-- Whether the variable of a name, if there is one, respects its tag. -/
def isTypedAt (exempt : Bool) (name : String) (frame : Frame) : Bool :=
  (Dict.get? name frame.tags).all fun tag => (Dict.get? name frame.vars).all (tag.suits exempt)

/-- All variables of a frame respect their tags, with exemptions for some names. -/
def IsTyped (exempt : String → Bool) (frame : Frame) : Prop :=
  ∀ name, frame.isTypedAt (exempt name) name

variable {frame : Frame} {exempt exempt' : String → Bool}

/-- Only names with a declared type can be of a wrong one. -/
theorem isTyped_iff_tags : frame.IsTyped exempt ↔
    ∀ entry ∈ frame.tags, frame.isTypedAt (exempt entry.1) entry.1 := by
  refine ⟨fun h entry _ => h entry.1, fun h name => ?_⟩
  cases htag : Dict.get? name frame.tags with
  | none => simp [isTypedAt, htag]
  | some tag => exact h (name, tag) (Dict.mem_of_get? htag)

instance : Decidable (frame.IsTyped exempt) := decidable_of_iff' _ isTyped_iff_tags

theorem isTyped_fresh (exempt : String → Bool) (this : Option Value) :
    IsTyped exempt { this := this } := fun _ => rfl

theorem isTypedAt_mono {e e' : Bool} (he : e → e') {name : String} (h : frame.isTypedAt e name) :
    frame.isTypedAt e' name := by
  simp only [isTypedAt, Option.all_eq_true] at h ⊢
  exact fun tag htag value hvalue => Tag.suits_mono he (h tag htag value hvalue)

/-- An assignment is typed at its own name if the value suits the declared type. -/
theorem isTypedAt_bind (exempt : Bool) (name : String) (value : Value) (other : String) :
    (frame.bind name value).isTypedAt exempt other =
      if other = name then (Dict.get? name frame.tags).all (·.suits exempt value)
      else frame.isTypedAt exempt other := by
  by_cases h : other = name <;> simp [isTypedAt, bind, Dict.get?_insert, h]

/-- A declaration brings its own type, whatever was declared before. -/
theorem WellFormed.isTypedAt_bindTagged (hwell : frame.WellFormed) (exempt : Bool) (name : String)
    (value : Value) (tag : Option Tag) (other : String) :
    (frame.bindTagged name value tag).isTypedAt exempt other =
      if other = name then tag.all (·.suits exempt value) else frame.isTypedAt exempt other := by
  unfold isTypedAt
  rw [hwell.get?_tags_bindTagged]
  by_cases h : other = name <;> simp [Frame.bindTagged, Dict.get?_insert, h]

/-- A declaration keeps a frame typed, with the exemption of its name renewed. -/
theorem IsTyped.bindTagged (h : frame.IsTyped exempt) (hwell : frame.WellFormed) {e : Bool}
    {value : Value} {tag : Option Tag} (hvalue : tag.all (·.suits e value)) (name : String) :
    (frame.bindTagged name value tag).IsTyped (Function.update exempt name e) := by
  intro other
  rw [hwell.isTypedAt_bindTagged]
  by_cases hother : other = name
  · simpa [hother] using hvalue
  · simpa [hother] using h other

end Frame

/-! ## Scopes -/

/-- All variables respect their tags, with exemptions for some names in each frame of a call. -/
structure Scope.IsTyped (exempts : List (String → Bool)) (s : Scope) : Prop where
  globals : s.globals.IsTyped fun _ => false
  calls : List.Forall₂ Frame.IsTyped exempts s.calls

namespace Scope

variable {s : Scope} {exempts exempts' : List (String → Bool)}

instance : Decidable (s.IsTyped exempts) :=
  decidable_of_iff (s.globals.IsTyped (fun _ => false) ∧ List.Forall₂ Frame.IsTyped exempts s.calls)
    ⟨fun h => ⟨h.1, h.2⟩, fun h => ⟨h.globals, h.calls⟩⟩

namespace IsTyped

theorem empty : IsTyped [] {} := ⟨Frame.isTyped_fresh _ none, .nil⟩

theorem push (h : s.IsTyped exempts) (this : Option Value) :
    (s.push this).IsTyped ((fun _ => false) :: exempts) :=
  ⟨h.globals, .cons (Frame.isTyped_fresh _ this) h.calls⟩

/-- More exemptions do no harm. -/
theorem loosen (h : s.IsTyped exempts)
    (hexempts : List.Forall₂ (fun e e' => ∀ name, e name → e' name) exempts exempts') :
    s.IsTyped exempts' := by
  obtain ⟨hglobals, hcalls⟩ := h
  refine ⟨hglobals, ?_⟩
  generalize s.calls = frames at hcalls
  induction hexempts generalizing frames with
  | nil => exact hcalls
  | cons he _ ih =>
    cases hcalls with
    | cons hframe hrest =>
      exact .cons (fun name => Frame.isTypedAt_mono (he name) (hframe name)) (ih _ hrest)

/-- A change of the frame of a name that respects tags as far as before. -/
theorem modifyOwner (h : s.IsTyped exempts) {name : String} {f : Frame → Frame}
    (hf : ∀ exempt, (s.owner name).IsTyped exempt → (f (s.owner name)).IsTyped exempt) :
    (s.modifyOwner name f).IsTyped exempts := by
  unfold Scope.owner at hf
  unfold Scope.modifyOwner
  split
  · rename_i hinner
    simp only [hinner, if_true, innermost] at hf
    have hcalls := h.calls
    unfold modifyInnermost
    split
    · rename_i hnil
      simp only [hnil, List.headD_nil] at hf
      exact ⟨hf _ h.globals, h.calls⟩
    · rename_i frame rest hcons
      simp only [hcons, List.headD_cons] at hf hcalls
      cases hcalls with
      | cons hframe hrest => exact ⟨h.globals, .cons (hf _ hframe) hrest⟩
  · rename_i hinner
    simp only [hinner] at hf
    exact ⟨hf _ h.globals, h.calls⟩

/-- A value may be given to a name if it respects the tag whenever the value before did. -/
theorem set (h : s.IsTyped exempts) {name : String} {value : Value}
    (hvalue : ∀ e tag, s.tag? name = some tag → (s.get? name).all (tag.suits e) →
      tag.suits e value) : (s.set name value).IsTyped exempts := by
  refine h.modifyOwner (f := (·.bind name value)) fun exempt howner other => ?_
  rw [Frame.isTypedAt_bind]
  by_cases hother : other = name
  · subst hother
    have hname := howner other
    simp only [Frame.isTypedAt, Option.all_eq_true] at hname
    simp only [if_true, Option.all_eq_true]
    intro tag htag
    exact hvalue _ tag htag (by simpa [Scope.get?, Option.all_eq_true] using hname tag htag)
  · simpa [hother] using howner other

/-- A container may get elements, and nil may become a container. -/
theorem set_container (h : s.IsTyped exempts) (hwell : s.WellFormed) {name : String}
    {key : Option Value} {value : Value}
    (hkind : value.kind = (((s.get? name).getD .nil).prepared key).kind) :
    (s.set name value).IsTyped exempts := by
  refine h.set fun e tag htag hold => ?_
  cases hget : s.get? name with
  | none =>
    have hnone : s.tag? name = none := (hwell.owner name).bound name hget
    cases hnone.symm.trans htag
  | some old =>
    rw [hget, Option.getD_some] at hkind
    rw [hget] at hold
    exact Tag.suits_of_kind_eq hkind (Tag.suits_prepared key hold)

/-- A variable in sight that is not exempt holds what its tag accepts. -/
theorem accepts? (h : s.IsTyped exempts) {name : String}
    (hexempt : ∀ e ∈ exempts.head?, e name = false) {tag : Tag} {value : Value}
    (htag : s.tag? name = some tag) (hvalue : s.get? name = some value) (hstrict : tag.isStrict) :
    tag.accepts? value = some true := by
  have howner : (s.owner name).isTypedAt false name := by
    unfold Scope.owner innermost
    split
    · have hcalls := h.calls
      cases hframes : s.calls with
      | nil => exact h.globals name
      | cons frame rest =>
        rw [hframes] at hcalls
        cases hcalls with
        | @cons exempt _ _ _ hframe _ =>
          have hname := hframe name
          rwa [hexempt exempt rfl] at hname
    · exact h.globals name
  simp only [Frame.isTypedAt, Option.all_eq_true] at howner
  exact Tag.accepts?_of_suits hstrict (howner tag htag value hvalue)

/-- A binding in the frame of a call decides about the exemption of its name. -/
theorem declare_local {exempt : String → Bool} (h : s.IsTyped (exempt :: exempts))
    (hwell : s.WellFormed) {e : Bool} {value : Value} {tag : Option Tag}
    (hvalue : tag.all (·.suits e value)) (name : String) :
    (s.declare name value tag).IsTyped (Function.update exempt name e :: exempts) := by
  obtain ⟨globals, calls⟩ := s
  cases h.calls with
  | cons hframe hrest =>
    have hframe' := hframe.bindTagged (hwell.calls _ (List.mem_cons_self ..)) hvalue name
    exact ⟨h.globals, .cons hframe' hrest⟩

/-- A declaration whose value suits the type keeps the scope typed. -/
theorem declare (h : s.IsTyped exempts) (hwell : s.WellFormed) {value : Value} {tag : Option Tag}
    (hvalue : ∀ e, tag.all (·.suits e value)) (name : String) :
    (s.declare name value tag).IsTyped exempts := by
  cases exempts with
  | nil =>
    obtain ⟨globals, calls⟩ := s
    cases h.calls
    have hglobals := h.globals.bindTagged hwell.globals (hvalue false) name
    rw [Function.update_eq_self] at hglobals
    exact ⟨hglobals, .nil⟩
  | cons exempt exempts =>
    have hlocal := h.declare_local hwell (hvalue (exempt name)) name
    rwa [Function.update_eq_self] at hlocal

end IsTyped

end Scope

end RouteScript
