import RouteScript.Dispatch
import RouteScript.Proofs.Dict
import RouteScript.Proofs.Eval.Policy

/-!
# Out of the reach of scripts

A realm says which objects are sessions. A value is within a realm if it leads to no session and to
no object that is not there yet, and if its code does not name the global with the session. Then
scripts never get hold of a session: values that are made from values within a realm are within it.
-/

namespace RouteScript

/-! ## Realms -/

/-- For every object, the bag that it began with if it is a session. -/
abbrev Realm := List (Option (Dict Value))

namespace Realm

variable {W W' W'' : Realm} {ref : ObjectRef}

def Holds (W : Realm) (ref : ObjectRef) : Prop := W[ref.id]? = some none

def Seals (W : Realm) (ref : ObjectRef) : Prop := ∃ bag, W[ref.id]? = some (some bag)

/-- There are further objects, none of which is a session. -/
def Grows (W W' : Realm) : Prop := ∃ n, W' = W ++ List.replicate n none

theorem getElem?_of_prefix (h : W <+: W') {id : Nat} {began : Option (Dict Value)}
    (hid : W[id]? = some began) : W'[id]? = some began := by
  obtain ⟨more, rfl⟩ := h
  obtain ⟨hlt, -⟩ := List.getElem?_eq_some_iff.mp hid
  rwa [List.getElem?_append_left hlt]

theorem Holds.mono (h : W <+: W') (href : W.Holds ref) : W'.Holds ref := getElem?_of_prefix h href

theorem Seals.mono (h : W <+: W') (href : W.Seals ref) : W'.Seals ref :=
  href.imp fun _ => getElem?_of_prefix h

theorem Holds.lt (h : W.Holds ref) : ref.id < W.length :=
  (List.getElem?_eq_some_iff.mp h).1

/-- A session is not among the objects that values may lead to. -/
theorem Seals.not_holds (h : W.Seals ref) : ¬ W.Holds ref := by
  obtain ⟨bag, hbag⟩ := h
  simp [Holds, hbag]

theorem Grows.refl (W : Realm) : W.Grows W := ⟨0, by simp⟩

theorem Grows.trans (h : W.Grows W') (h' : W'.Grows W'') : W.Grows W'' := by
  obtain ⟨n, rfl⟩ := h
  obtain ⟨m, rfl⟩ := h'
  exact ⟨n + m, by rw [List.append_assoc, List.replicate_append_replicate]⟩

theorem Grows.isPrefix (h : W.Grows W') : W <+: W' := by
  obtain ⟨n, rfl⟩ := h
  exact List.prefix_append ..

/-- One more object that is no session makes a realm grow. -/
theorem grows_concat (W : Realm) : W.Grows (W ++ [none]) := ⟨1, rfl⟩

end Realm

/-! ## Code -/

/-- The parameters do not have the name of the global with the session. -/
def FunctionDecl.hasDiscreetParams (decl : FunctionDecl) : Bool :=
  decl.params.all (·.name != Service.sessionGlobal)

def discreet : NodeCheck where
  expr
    | .name word => word != Service.sessionGlobal
    | .function decl => decl.hasDiscreetParams
    | _ => true
  stmt
    | .declare _ name _ => name != Service.sessionGlobal
    | .forEach _ key value _ =>
      key.all (· != Service.sessionGlobal) && value != Service.sessionGlobal
    | .tryCatch _ name _ => name != Service.sessionGlobal
    | .functionDef decl => decl.hasDiscreetParams
    | .classDef decl => decl.methods.all (·.hasDiscreetParams)
    | _ => true

/-- The body and the parameters of a function do not name the global with the session. -/
structure FunctionDecl.IsDiscreet (decl : FunctionDecl) : Prop where
  body : decl.passes discreet
  params : decl.hasDiscreetParams

/-- The defaults and the methods of a class do not name the global with the session. -/
structure ClassDecl.IsDiscreet (decl : ClassDecl) : Prop where
  code : decl.passes discreet
  params : ∀ method ∈ decl.methods, method.hasDiscreetParams

theorem ClassDecl.IsDiscreet.method {decl : ClassDecl} (h : decl.IsDiscreet)
    {method : FunctionDecl} (hmethod : method ∈ decl.methods) : method.IsDiscreet :=
  ⟨(ClassDecl.passes_iff.mp h.code).2 method hmethod, h.params method hmethod⟩

theorem FunctionDecl.isDiscreet_hosted (name : String) : (FunctionDecl.hosted name).IsDiscreet :=
  ⟨rfl, rfl⟩

/-- A class that is declared in discreet code is discreet. -/
theorem ClassDecl.isDiscreet_of_stmt {decl : ClassDecl} (h : (Stmt.classDef decl).passes discreet) :
    decl.IsDiscreet := by
  simp only [Stmt.passes, Bool.and_eq_true] at h
  exact ⟨h.2, List.all_eq_true.mp h.1⟩

theorem FunctionDecl.isDiscreet_of_stmt {decl : FunctionDecl}
    (h : (Stmt.functionDef decl).passes discreet) : decl.IsDiscreet := by
  simp only [Stmt.passes, Bool.and_eq_true] at h
  exact ⟨h.2, h.1⟩

theorem FunctionDecl.isDiscreet_of_expr {decl : FunctionDecl}
    (h : (Expr.function decl).passes discreet) : decl.IsDiscreet := by
  simp only [Expr.passes, Bool.and_eq_true] at h
  exact ⟨h.2, h.1⟩

/-! ## What is within a realm -/

section Within

variable (W : Realm)

mutual

/-- All handles in a value belong to objects that are no sessions, and its code is discreet. -/
def Value.Within : Value → Prop
  | .array items => Value.AllWithin items
  | .map entries => Value.EntriesWithin entries
  | .object ref => W.Holds ref
  | .function decl => decl.IsDiscreet
  | .method decl receiver => decl.IsDiscreet ∧ W.Holds receiver
  | .nil | .bool _ | .int _ | .float _ | .text _ | .classRef _ | .builtin _ | .future _
  | .channel _ | .stream _ => True

def Value.AllWithin : List Value → Prop
  | [] => True
  | v :: rest => Value.Within v ∧ Value.AllWithin rest

def Value.EntriesWithin : List (String × Value) → Prop
  | [] => True
  | (_, v) :: rest => Value.Within v ∧ Value.EntriesWithin rest

end

/-- The values of a dictionary are within a realm. -/
def Dict.Within (d : Dict Value) : Prop := ∀ e ∈ d, e.2.Within W

/-- The value that a signal carries is within a realm. -/
def Signal.Within : Signal → Prop
  | .returned v | .thrown v => v.Within W
  | .broken | .continued | .failed _ => True

/-- The variables of a frame and its receiver are within a realm, but for the session in the
variable for it. -/
structure Frame.Within (frame : Frame) : Prop where
  vars : ∀ e ∈ frame.vars, e.1 ≠ Service.sessionGlobal → e.2.Within W
  session : ∀ e ∈ frame.vars, e.1 = Service.sessionGlobal → ∃ ref, e.2 = .object ref ∧ W.Seals ref
  this : ∀ v ∈ frame.this, v.Within W

/-- All frames are within a realm. -/
structure Scope.Within (s : Scope) : Prop where
  globals : s.globals.Within W
  calls : ∀ frame ∈ s.calls, frame.Within W

/-- The variables of a task are within a realm. -/
def Task.Within (t : Task) : Prop := t.scope.Within W

/-- What a new task works on is within a realm. -/
def Work.Within : Work → Prop
  | .evaluate e => e.passes discreet
  | .call callee => callee.Within W

/-- The code of a job is discreet; what is called and its arguments are within a realm. -/
def Job.Within : Job → Prop
  | .call callee args => callee.Within W ∧ ∀ v ∈ args, v.Within W
  | job => job.passes discreet

def Request.BringsWithin : (r : Request) → r.Reply → Prop
  | .offer .. | .settle .. => fun _ => True
  | .take _ => fun (found : Option Value) => ∀ v ∈ found, v.Within W
  | .await _ => fun (outcome : Except Signal Value) =>
    Signal.Ends (Signal.Within W) (Value.Within W) outcome

/-- The value that a request hands over is within a realm. -/
def Request.Within : Request → Prop
  | .offer _ v => v.Within W
  | .settle .. | .take _ | .await _ => True

end Within

variable {W W' : Realm}

/-! ## Values -/

namespace Value

@[simp] theorem allWithin_iff {l : List Value} : AllWithin W l ↔ ∀ v ∈ l, v.Within W := by
  induction l with
  | nil => simp [AllWithin]
  | cons v l ih => simp [AllWithin, ih]

@[simp] theorem entriesWithin_iff {d : Dict Value} : EntriesWithin W d ↔ Dict.Within W d := by
  induction d with
  | nil => simp [EntriesWithin, Dict.Within]
  | cons e d ih => simp [EntriesWithin, ih, Dict.Within]

theorem within_nil : nil.Within W := trivial

/-- A list is within a realm if its elements are. -/
theorem within_array {l : List Value} : (array l).Within W ↔ ∀ v ∈ l, v.Within W := by
  rw [Within, allWithin_iff]

theorem within_map {d : Dict Value} : (map d).Within W ↔ Dict.Within W d := by
  rw [Within, entriesWithin_iff]

mutual

/-- A value within a realm is within every larger one. -/
theorem Within.mono (h : W <+: W') {v : Value} (hv : v.Within W) : v.Within W' := by
  cases v with
  | array items => rw [Within] at hv ⊢; exact AllWithin.mono h hv
  | map entries => rw [Within] at hv ⊢; exact EntriesWithin.mono h hv
  | object ref => exact Realm.Holds.mono h hv
  | method decl receiver => exact ⟨hv.1, Realm.Holds.mono h hv.2⟩
  | function decl => exact hv
  | _ => trivial

theorem AllWithin.mono (h : W <+: W') {l : List Value} (hl : AllWithin W l) : AllWithin W' l := by
  cases l with
  | nil => trivial
  | cons v rest => exact ⟨Within.mono h hl.1, AllWithin.mono h hl.2⟩

theorem EntriesWithin.mono (h : W <+: W') {l : List (String × Value)} (hl : EntriesWithin W l) :
    EntriesWithin W' l := by
  cases l with
  | nil => trivial
  | cons e rest => exact ⟨Within.mono h hl.1, EntriesWithin.mono h hl.2⟩

end

theorem within_getD {o : Option Value} (h : ∀ v ∈ o, v.Within W) {default : Value}
    (hdefault : default.Within W) : (o.getD default).Within W := by
  cases o with
  | none => exact hdefault
  | some v => exact h v rfl

def isScalar : Value → Bool
  | .nil | .bool _ | .int _ | .float _ | .text _ => true
  | _ => false

/-- Scalars lead to no object. -/
theorem within_of_isScalar {v : Value} (h : v.isScalar) : v.Within W := by
  cases v <;> trivial

theorem all_mono (h : W <+: W') {l : List Value} (hl : ∀ v ∈ l, v.Within W) :
    ∀ v ∈ l, v.Within W' := fun v hv => (hl v hv).mono h

end Value

namespace Dict

variable {d : Dict Value} {v : Value}

theorem within_nil : Dict.Within W [] := by simp [Within]

theorem Within.mono (h : W <+: W') (hd : Dict.Within W d) : Dict.Within W' d :=
  fun e he => (hd e he).mono h

theorem Within.get? (h : Dict.Within W d) {key : String} : ∀ v ∈ Dict.get? key d, v.Within W :=
  fun _ hv => h _ (mem_of_get? hv)

theorem Within.insert (h : Dict.Within W d) (hv : v.Within W) (key : String) :
    Dict.Within W (Dict.insert key v d) := by
  intro e he
  obtain rfl | he := mem_insert he
  · exact hv
  · exact h e he

theorem Within.erase (h : Dict.Within W d) (key : String) : Dict.Within W (Dict.erase key d) :=
  fun e he => h e (mem_of_mem_erase he)

/-- A merge has no other entries than the merged dictionaries. -/
theorem mem_merge {α : Type} {d other : Dict α} {e : String × α} (h : e ∈ Dict.merge d other) :
    e ∈ d ∨ e ∈ other := by
  induction other generalizing d with
  | nil => exact .inl h
  | cons entry rest ih =>
    obtain he | he := ih h
    · obtain rfl | he := mem_insert he
      · exact .inr (by simp)
      · exact .inl he
    · exact .inr (by simp [he])

theorem Within.merge (h : Dict.Within W d) {other : Dict Value} (hother : Dict.Within W other) :
    Dict.Within W (Dict.merge d other) :=
  fun e he => (mem_merge he).elim (h e) (hother e)

theorem Within.values (h : Dict.Within W d) : ∀ v ∈ Dict.values d, v.Within W := by
  intro v hv
  obtain ⟨e, he, rfl⟩ := List.mem_map.mp hv
  exact h e he

end Dict

theorem Signal.Within.mono (h : W <+: W') {x : Signal} (hx : x.Within W) : x.Within W' := by
  cases x with
  | returned v | thrown v => exact Value.Within.mono h hx
  | _ => trivial

theorem Signal.ends_mono (h : W <+: W') {outcome : Except Signal Value}
    (ho : Signal.Ends (Signal.Within W) (Value.Within W) outcome) :
    Signal.Ends (Signal.Within W') (Value.Within W') outcome := by
  cases outcome with
  | ok v => exact Value.Within.mono h ho
  | error x => exact Signal.Within.mono h ho

theorem Request.Within.mono (h : W <+: W') {r : Request} (hr : r.Within W) : r.Within W' := by
  cases r with
  | offer channel v => exact Value.Within.mono h hr
  | _ => trivial

theorem Work.Within.mono (h : W <+: W') {work : Work} (hwork : work.Within W) :
    work.Within W' := by
  cases work with
  | evaluate e => exact hwork
  | call callee => exact Value.Within.mono h hwork

namespace Value

/-! ### Elements -/

variable {fields fields' : ObjectRef → Dict Value} {container key value : Value}

theorem within_nth? {items : List Value} (h : ∀ v ∈ items, v.Within W) (i : Int64) :
    ∀ v ∈ nth? items i, v.Within W := by
  intro v hv
  unfold nth? at hv
  split at hv
  · exact h v (List.mem_of_getElem? hv)
  · cases hv

/-- An element is within the realm if the container and the objects of the realm are. -/
theorem within_element? (hfields : ∀ ref, W.Holds ref → Dict.Within W (fields ref))
    (h : container.Within W) : ∀ v ∈ container.element? fields key, v.Within W := by
  intro v hv
  unfold element? at hv
  split at hv
  · exact within_nth? (within_array.mp h) _ v hv
  · exact (within_map.mp h).get? v hv
  · exact (hfields _ h).get? v hv
  · obtain ⟨c, -, rfl⟩ := Option.map_eq_some_iff.mp hv
    trivial
  · cases hv

theorem within_element (hfields : ∀ ref, W.Holds ref → Dict.Within W (fields ref))
    (h : container.Within W) {v : Value} (hv : container.element fields key = .ok v) :
    v.Within W := by
  unfold element at hv
  split at hv <;> cases hv
  exact within_getD (within_element? hfields h) trivial

theorem within_member? (hfields : ∀ ref, W.Holds ref → Dict.Within W (fields ref))
    (h : container.Within W) (name : String) :
    ∀ v ∈ container.member? fields name, v.Within W := by
  intro v hv
  unfold member? at hv
  split at hv
  · exact (hfields _ h).get? v hv
  · exact (within_map.mp h).get? v hv
  · cases hv

/-- Elements are read from nothing but objects of the realm. -/
theorem element?_congr (hfields : ∀ ref, W.Holds ref → fields' ref = fields ref)
    (h : container.Within W) (key : Value) :
    container.element? fields' key = container.element? fields key := by
  cases container with
  | object ref => simp only [element?, hfields ref h]
  | _ => cases key <;> rfl

/-- Containers within a realm have the same elements, if the objects of the realm have the same
fields. -/
theorem element_congr (hfields : ∀ ref, W.Holds ref → fields' ref = fields ref)
    (h : container.Within W) (key : Value) :
    container.element fields' key = container.element fields key := by
  simp only [element, element?_congr hfields h]

theorem member?_congr (hfields : ∀ ref, W.Holds ref → fields' ref = fields ref)
    (h : container.Within W) (name : String) :
    container.member? fields' name = container.member? fields name := by
  cases container with
  | object ref => simp only [member?, hfields ref h]
  | _ => rfl

theorem within_prepared (h : container.Within W) (key : Option Value) :
    (container.prepared key).Within W := by
  unfold prepared
  split
  · split
    · exact within_array.mpr (by simp)
    · exact within_array.mpr (by simp)
    · exact within_map.mpr Dict.within_nil
  · exact h

/-- Where an element is stored: in a container within the realm, or in an object of it. -/
def Placement.Within (W : Realm) : Placement → Prop
  | .container changed => changed.Within W
  | .field ref _ => W.Holds ref

/-- Storing a value within the realm keeps a container within it. -/
theorem within_place {key : Option Value} (h : container.Within W) (hvalue : value.Within W)
    {placed : Placement} (hplace : container.place key value = .ok placed) :
    placed.Within W := by
  unfold place at hplace
  split at hplace
  · cases hplace
    exact within_array.mpr (by simpa [or_imp, forall_and, hvalue] using within_array.mp h)
  · split at hplace
    · cases hplace
      refine within_array.mpr fun v hv => ?_
      obtain hv | rfl := List.mem_or_eq_of_mem_set hv
      · exact within_array.mp h v hv
      · exact hvalue
    · split at hplace <;> cases hplace
      exact within_array.mpr (by simpa [or_imp, forall_and, hvalue] using within_array.mp h)
  · cases hplace
  · cases hplace
    exact within_map.mpr ((within_map.mp h).insert hvalue _)
  · cases hplace
  · cases hplace
    exact h
  all_goals cases hplace

/-! ### Operators -/

theorem isScalar_divide {x y : Float} {v : Value} (h : divide x y = .ok v) : v.isScalar := by
  unfold divide at h
  split at h <;> cases h
  rfl

theorem isScalar_remainder {x y : Int64} {v : Value} (h : remainder x y = .ok v) :
    v.isScalar := by
  unfold remainder at h
  split at h <;> cases h
  rfl

theorem isScalar_wholeOp {op : BinaryOp} {a b : Int64} {v : Value} (h : wholeOp op a b = .ok v) :
    v.isScalar := by
  cases op with
  | add | subtract | multiply | shiftLeft | shiftRight =>
    cases h
    rfl
  | divide => exact isScalar_divide h
  | modulo => exact isScalar_remainder h
  | _ => cases h

theorem isScalar_floatOp {op : BinaryOp} {x y : Float} {mismatch : Fault} {v : Value}
    (h : floatOp op x y mismatch = .ok v) : v.isScalar := by
  cases op with
  | add | subtract | multiply =>
    cases h
    rfl
  | divide => exact isScalar_divide h
  | modulo => exact isScalar_remainder h
  | _ => cases h

theorem isScalar_arithmetic {op : BinaryOp} {left right v : Value}
    (h : left.arithmetic op right = .ok v) : v.isScalar := by
  unfold arithmetic at h
  dsimp only at h
  split at h
  · exact isScalar_wholeOp h
  · split at h
    · exact isScalar_floatOp h
    · split at h <;> cases h
      rfl

/-- Operators give scalars. -/
theorem isScalar_binary {op : BinaryOp} {left right v : Value}
    (h : left.binary op right = .ok v) : v.isScalar := by
  have hordered {holds : Ordering → Bool} (h : left.ordered op holds right = .ok v) :
      v.isScalar := by
    unfold ordered at h
    split at h <;> cases h
    rfl
  unfold binary at h
  split at h
  · cases h
    rfl
  · cases h
    rfl
  iterate 4 exact hordered h
  exact isScalar_arithmetic h

theorem isScalar_unary {op : UnaryOp} {operand v : Value} (h : operand.unary op = .ok v) :
    v.isScalar := by
  unfold unary at h
  split at h <;> cases h <;> rfl

theorem isScalar_stepped {op : StepOp} {operand v : Value} (h : operand.stepped op = .ok v) :
    v.isScalar := by
  unfold stepped at h
  split at h <;> cases h <;> rfl

theorem within_zero (tag : Tag) : tag.zero.Within W := by
  cases tag with
  | array => exact within_array.mpr (by simp)
  | map => exact within_map.mpr Dict.within_nil
  | _ => trivial

theorem isScalar_coerce (tag : Tag) (line : String) : (tag.coerce line).isScalar := by
  have helim {α : Type} (o : Option α) (f : α → Value) (hf : ∀ a, (f a).isScalar) :
      (o.elim (.text line) f).isScalar := by
    cases o with
    | none => rfl
    | some a => exact hf a
  unfold Tag.coerce
  dsimp only
  split
  · split
    · rfl
    · exact helim _ _ fun _ => rfl
  · split
    · rfl
    · exact helim _ _ fun _ => rfl
  · split
    · rfl
    · split <;> rfl
  · rfl

/-! ### Documents -/

mutual

/-- Decoded values lead to no object. -/
theorem within_ofJson (j : Json) : (ofJson j).Within W := by
  cases j with
  | array items => exact within_array.mpr (within_itemsOfJson items)
  | object entries => exact within_map.mpr (within_entriesOfJson entries)
  | _ => trivial

theorem within_itemsOfJson (items : List Json) : ∀ v ∈ itemsOfJson items, v.Within W := by
  cases items with
  | nil => simp [itemsOfJson]
  | cons j rest =>
    simp only [itemsOfJson, List.forall_mem_cons]
    exact ⟨within_ofJson j, within_itemsOfJson rest⟩

theorem within_entriesOfJson (entries : List (String × Json)) :
    Dict.Within W (entriesOfJson entries) := by
  cases entries with
  | nil => simp [entriesOfJson, Dict.Within]
  | cons entry rest =>
    obtain ⟨key, j⟩ := entry
    simp only [entriesOfJson, Dict.Within, List.forall_mem_cons]
    exact ⟨within_ofJson j, within_entriesOfJson rest⟩

end

end Value

/-! ## Tasks -/

theorem Frame.Within.mono (h : W <+: W') {frame : Frame} (hframe : frame.Within W) :
    frame.Within W' where
  vars e he hne := (hframe.vars e he hne).mono h
  session e he heq := by
    obtain ⟨ref, hvalue, hseals⟩ := hframe.session e he heq
    exact ⟨ref, hvalue, hseals.mono h⟩
  this v hv := (hframe.this v hv).mono h

/-- A frame stays within the realm when another name than that of the session is bound. -/
theorem Frame.Within.bind {frame : Frame} (h : frame.Within W) {name : String}
    (hname : name ≠ Service.sessionGlobal) {v : Value} (hv : v.Within W) (tags : Dict Tag) :
    Frame.Within W { frame with vars := Dict.insert name v frame.vars, tags } where
  vars e he hne := by
    obtain rfl | he := Dict.mem_insert he
    · exact hv
    · exact h.vars e he hne
  session e he heq := by
    obtain rfl | he := Dict.mem_insert he
    · exact absurd heq hname
    · exact h.session e he heq
  this := h.this

namespace Scope

variable {s : Scope} {v : Value} {name : String}

theorem Within.mono (h : W <+: W') (hs : s.Within W) : s.Within W' :=
  ⟨hs.globals.mono h, fun frame hframe => (hs.calls frame hframe).mono h⟩

theorem Within.innermost (h : s.Within W) : s.innermost.Within W := by
  unfold Scope.innermost
  cases hcalls : s.calls with
  | nil => exact h.globals
  | cons frame rest => exact h.calls frame (by simp [hcalls])

theorem Within.owner (h : s.Within W) (name : String) : (s.owner name).Within W := by
  unfold Scope.owner
  split
  · exact h.innermost
  · exact h.globals

theorem Within.get? (h : s.Within W) (hname : name ≠ Service.sessionGlobal) :
    ∀ v ∈ s.get? name, v.Within W :=
  fun _ hv => (h.owner name).vars _ (Dict.mem_of_get? hv) hname

theorem Within.this (h : s.Within W) : ∀ v ∈ s.this, v.Within W := h.innermost.this

theorem Within.modifyInnermost (h : s.Within W) {f : Frame → Frame}
    (hf : ∀ frame, frame.Within W → (f frame).Within W) : (s.modifyInnermost f).Within W := by
  unfold Scope.modifyInnermost
  split
  · exact ⟨hf _ h.globals, h.calls⟩
  · rename_i frame rest hcalls
    have hframes := h.calls
    rw [hcalls, List.forall_mem_cons] at hframes
    exact ⟨h.globals, List.forall_mem_cons.mpr ⟨hf _ hframes.1, hframes.2⟩⟩

/-- An assignment to another name than that of the session keeps a scope within the realm. -/
theorem Within.set (h : s.Within W) (hname : name ≠ Service.sessionGlobal) (hv : v.Within W) :
    (s.set name v).Within W := by
  unfold Scope.set Scope.modifyOwner
  split
  · exact h.modifyInnermost fun frame hframe => hframe.bind hname hv frame.tags
  · exact ⟨h.globals.bind hname hv s.globals.tags, h.calls⟩

theorem Within.declare (h : s.Within W) (hname : name ≠ Service.sessionGlobal)
    (hv : v.Within W) (tag : Option Tag) : (s.declare name v tag).Within W :=
  h.modifyInnermost fun _ hframe => hframe.bind hname hv _

theorem Within.setGlobal (h : s.Within W) (hname : name ≠ Service.sessionGlobal)
    (hv : v.Within W) : (s.setGlobal name v).Within W :=
  ⟨h.globals.bind hname hv s.globals.tags, h.calls⟩

/-- The global for the session holds sessions only. -/
theorem Within.setSession (h : s.Within W) {ref : ObjectRef} (href : W.Seals ref) :
    (s.setGlobal Service.sessionGlobal (.object ref)).Within W where
  globals := {
    vars := fun e he hne => by
      obtain rfl | he := Dict.mem_insert he
      · exact absurd rfl hne
      · exact h.globals.vars e he hne
    session := fun e he heq => by
      obtain rfl | he := Dict.mem_insert he
      · exact ⟨ref, rfl, href⟩
      · exact h.globals.session e he heq
    this := h.globals.this }
  calls := h.calls

/-- A declaration of another name leaves a global alone, also where the innermost frame is that of
the globals. -/
theorem global?_declare {key : String} (hne : name ≠ key) (v : Value) (tag : Option Tag) :
    (s.declare name v tag).global? key = s.global? key := by
  unfold declare Scope.modifyInnermost
  split
  · exact Dict.get?_insert_of_ne hne.symm v s.globals.vars
  · rfl

theorem global?_set {key : String} (hne : name ≠ key) (v : Value) :
    (s.set name v).global? key = s.global? key := by
  unfold set modifyOwner Scope.modifyInnermost
  split
  · split
    · exact Dict.get?_insert_of_ne hne.symm v s.globals.vars
    · rfl
  · exact Dict.get?_insert_of_ne hne.symm v s.globals.vars

/-- What is in sight is within the realm if all frames are. -/
theorem Within.fork (h : s.Within W) : s.fork.Within W where
  globals := {
    vars := fun e he hne =>
      (Dict.mem_merge he).elim (h.globals.vars e · hne) (h.innermost.vars e · hne)
    session := fun e he heq =>
      (Dict.mem_merge he).elim (h.globals.session e · heq) (h.innermost.session e · heq)
    this := h.this }
  calls := by simp [Scope.fork]

end Scope

namespace Task

variable {t : Task}

theorem Within.mono (h : W <+: W') (ht : t.Within W) : t.Within W' := Scope.Within.mono h ht

theorem Within.enter (h : t.Within W) {this : Option Value} (hthis : ∀ v ∈ this, v.Within W) :
    (t.enter this).Within W :=
  ⟨h.globals, List.forall_mem_cons.mpr ⟨⟨by simp, by simp, hthis⟩, h.calls⟩⟩

theorem Within.leave (h : t.Within W) : t.leave.Within W :=
  ⟨h.globals, fun frame hframe => h.calls frame (List.mem_of_mem_tail hframe)⟩

theorem Within.fork (h : t.Within W) : t.fork.Within W := Scope.Within.fork h

end Task

/-- The object in the global for the session is a session. -/
theorem Service.seals_of_injected? {t : Task} (h : t.Within W) {ref : ObjectRef}
    (href : injected? sessionGlobal t = some ref) : W.Seals ref := by
  unfold injected? at href
  split at href
  · rename_i ref' hget
    obtain ⟨ref'', hvalue, hseals⟩ := h.globals.session _ (Dict.mem_of_get? hget) rfl
    cases href
    cases hvalue
    exact hseals
  · cases href

/-- The object in another global is none. -/
theorem Service.holds_of_injected? {t : Task} (h : t.Within W) {name : String}
    (hname : name ≠ sessionGlobal) {ref : ObjectRef} (href : injected? name t = some ref) :
    W.Holds ref := by
  unfold injected? at href
  split at href
  · rename_i ref' hget
    cases href
    exact h.globals.vars _ (Dict.mem_of_get? hget) hname
  · cases href

end RouteScript
