import RouteScript.Proofs.ClassTable.Checked
import RouteScript.Proofs.Dict
import RouteScript.Proofs.Eval.Parts

/-!
# Policies

A policy says what code may look like, which built-in functions may be used, what a class table must
be like, and whether a run may wait or go on without a bound. Code, values, tasks and stores obey a
policy if everything in them that can be carried out later does. All changes that evaluation makes
to tasks and stores keep this.
-/

namespace RouteScript

open Relation (TransGen)

/-- Whether a statement by itself can go on without a bound: a loop with a condition, or another
script. -/
def Stmt.isUnbounded : Stmt → Bool
  | .whileLoop .. | .doWhile .. | .load _ => true
  | _ => false

structure Policy where
  /-- What every node of the code must pass. -/
  code : NodeCheck
  /-- The built-in functions that may be used. -/
  builtin : Builtin → Prop
  /-- The functions that are declared from the start. -/
  known : String → Bool
  /-- What a class table must be like, its code apart. -/
  table : ClassTable → Prop
  /-- Whether there may be loops with a condition, scripts to load, channels and futures. -/
  unbounded : Prop
  builtin_of_name {word : String} {b : Builtin} :
    code.expr (.name word) → Builtin.ofName? word = some b → builtin b
  unbounded_of_builtin {b : Builtin} : builtin b → b = .async ∨ b = .makeChan → unbounded
  unbounded_of_stmt {stmt : Stmt} : code.stmt stmt → stmt.isUnbounded → unbounded
  register {decl : ClassDecl} {t t' : ClassTable} :
    code.stmt (.classDef decl) → table t → t.register decl = .ok t' → table t'

/-- A value with one property, or a signal with another one. -/
def Signal.Ends (A : Signal → Prop) {α : Type} (Q : α → Prop) : Except Signal α → Prop
  | .ok a => Q a
  | .error x => A x

/-! ## What obeys a policy -/

section Obeys

variable (π : Policy)

mutual

/-- The code in a value passes the check, and its built-in functions and handles are allowed. -/
def Value.Obeys : Value → Prop
  | .array items => Value.AllObey items
  | .map entries => Value.EntriesObey entries
  | .function decl | .method decl _ => decl.passes π.code
  | .builtin b => π.builtin b
  | .future _ | .channel _ => π.unbounded
  | .nil | .bool _ | .int _ | .float _ | .text _ | .object _ | .classRef _ | .stream _ => True

def Value.AllObey : List Value → Prop
  | [] => True
  | v :: rest => Value.Obeys v ∧ Value.AllObey rest

def Value.EntriesObey : List (String × Value) → Prop
  | [] => True
  | (_, v) :: rest => Value.Obeys v ∧ Value.EntriesObey rest

end

/-- The values of a dictionary obey the policy. -/
def Dict.Obeys (d : Dict Value) : Prop := ∀ e ∈ d, e.2.Obeys π

/-- The value that a signal carries obeys the policy. -/
def Signal.Obeys : Signal → Prop
  | .returned v | .thrown v => v.Obeys π
  | .broken | .continued | .failed _ => True

/-- The variables of a frame and its receiver obey the policy. -/
structure Frame.Obeys (frame : Frame) : Prop where
  vars : Dict.Obeys π frame.vars
  this : ∀ v ∈ frame.this, v.Obeys π

/-- All frames obey the policy. -/
structure Scope.Obeys (s : Scope) : Prop where
  globals : s.globals.Obeys π
  calls : ∀ frame ∈ s.calls, frame.Obeys π

/-- The variables of a task obey the policy. -/
def Task.Obeys (t : Task) : Prop := t.scope.Obeys π

/-- Everything in a store that a task may use obeys the policy. -/
structure Store.Obeys (s : Store) : Prop where
  functions : ∀ e ∈ s.functions, e.2.passes π.code
  known : ∀ word, π.known word → Dict.contains word s.functions
  classes : ∀ e ∈ s.classes.entries, e.decl.passes π.code
  table : π.table s.classes
  objects : ∀ fields ∈ s.objects, Dict.Obeys π fields
  channels : ∀ c ∈ s.channels, ∀ v ∈ c.queue, v.Obeys π
  futures : ∀ outcome, some outcome ∈ s.futures →
    Signal.Ends (Signal.Obeys π) (Value.Obeys π) outcome
  files : π.unbounded → ∀ place source program, s.files.textAt place = .ok source →
    Program.ofSource source = .ok program → Stmt.allPass π.code program.statements

/-- The code of a job passes the check; what is called and its arguments obey the policy. -/
def Job.Obeys : Job → Prop
  | .call callee args => callee.Obeys π ∧ ∀ v ∈ args, v.Obeys π
  | job => job.passes π.code

def Request.Brings : (r : Request) → r.Reply → Prop
  | .offer .. | .settle .. => fun _ => True
  | .take _ => fun (found : Option Value) => ∀ v ∈ found, v.Obeys π
  | .await _ => fun (outcome : Except Signal Value) =>
    Signal.Ends (Signal.Obeys π) (Value.Obeys π) outcome

/-- The value that a request hands over obeys the policy. -/
def Request.Obeys : Request → Prop
  | .offer _ v => v.Obeys π
  | .settle .. | .take _ | .await _ => True

end Obeys

variable {π : Policy}

/-- The parts of a job obey the policy if the job does. -/
theorem Job.Obeys.of_hasPart {job part : Job} (h : job.Obeys π) (hpart : job.HasPart part) :
    part.Obeys π := by
  have hpasses : part.passes π.code := by
    cases job with
    | call => simp [HasPart, parts] at hpart
    | _ => exact passes_of_hasPart h hpart
  cases part with
  | call => cases hpasses
  | _ => exact hpasses

theorem Job.Obeys.of_transGen {job part : Job} (h : job.Obeys π)
    (hpart : TransGen HasPart job part) : part.Obeys π := by
  induction hpart with
  | single hpart => exact h.of_hasPart hpart
  | tail _ hpart ih => exact ih.of_hasPart hpart

/-! ## Values -/

namespace Value

@[simp] theorem allObey_iff {l : List Value} : AllObey π l ↔ ∀ v ∈ l, v.Obeys π := by
  induction l with
  | nil => simp [AllObey]
  | cons v l ih => simp [AllObey, ih]

@[simp] theorem entriesObey_iff {d : Dict Value} : EntriesObey π d ↔ Dict.Obeys π d := by
  induction d with
  | nil => simp [EntriesObey, Dict.Obeys]
  | cons e d ih => simp [EntriesObey, ih, Dict.Obeys]

theorem obeys_nil : nil.Obeys π := trivial

/-- A list obeys the policy if its elements do. -/
theorem obeys_array {l : List Value} : (array l).Obeys π ↔ ∀ v ∈ l, v.Obeys π := by
  rw [Obeys, allObey_iff]

theorem obeys_map {d : Dict Value} : (map d).Obeys π ↔ Dict.Obeys π d := by
  rw [Obeys, entriesObey_iff]

theorem obeys_getD {o : Option Value} (h : ∀ v ∈ o, v.Obeys π) {default : Value}
    (hdefault : default.Obeys π) : (o.getD default).Obeys π := by
  cases o with
  | none => exact hdefault
  | some v => exact h v rfl

end Value

namespace Dict

variable {d : Dict Value} {v : Value}

theorem obeys_nil : Dict.Obeys π [] := by simp [Obeys]

theorem Obeys.get? (h : Dict.Obeys π d) {key : String} : ∀ v ∈ Dict.get? key d, v.Obeys π :=
  fun _ hv => h _ (mem_of_get? hv)

/-- Inserting a value that obeys keeps a dictionary that obeys. -/
theorem Obeys.insert (h : Dict.Obeys π d) (hv : v.Obeys π) (key : String) :
    Dict.Obeys π (Dict.insert key v d) := by
  intro e he
  obtain rfl | he := mem_insert he
  · exact hv
  · exact h e he

theorem Obeys.erase (h : Dict.Obeys π d) (key : String) : Dict.Obeys π (Dict.erase key d) :=
  fun e he => h e (mem_of_mem_erase he)

theorem Obeys.merge (h : Dict.Obeys π d) {other : Dict Value} (hother : Dict.Obeys π other) :
    Dict.Obeys π (Dict.merge d other) := by
  induction other generalizing d with
  | nil => exact h
  | cons e rest ih =>
    refine ih (h.insert (hother e (by simp)) e.1) fun e he => hother e (by simp [he])

theorem Obeys.values (h : Dict.Obeys π d) : ∀ v ∈ Dict.values d, v.Obeys π := by
  intro v hv
  obtain ⟨e, he, rfl⟩ := List.mem_map.mp hv
  exact h e he

end Dict

namespace Value

/-! ### Elements -/

theorem obeys_nth? {items : List Value} (h : ∀ v ∈ items, v.Obeys π) (i : Int64) :
    ∀ v ∈ nth? items i, v.Obeys π := by
  intro v hv
  unfold nth? at hv
  split at hv
  · exact h v (List.mem_of_getElem? hv)
  · cases hv

variable {fields : ObjectRef → Dict Value} {container key value : Value}

/-- An element obeys the policy if the container and all objects do. -/
theorem obeys_element? (hfields : ∀ ref, Dict.Obeys π (fields ref)) (h : container.Obeys π) :
    ∀ v ∈ container.element? fields key, v.Obeys π := by
  intro v hv
  unfold element? at hv
  split at hv
  · exact obeys_nth? (obeys_array.mp h) _ v hv
  · exact (obeys_map.mp h).get? v hv
  · exact (hfields _).get? v hv
  · obtain ⟨c, -, rfl⟩ := Option.map_eq_some_iff.mp hv
    trivial
  · cases hv

theorem obeys_element (hfields : ∀ ref, Dict.Obeys π (fields ref)) (h : container.Obeys π)
    {v : Value} (hv : container.element fields key = .ok v) : v.Obeys π := by
  unfold element at hv
  split at hv <;> cases hv
  exact obeys_getD (obeys_element? hfields h) trivial

theorem obeys_member? (hfields : ∀ ref, Dict.Obeys π (fields ref)) (h : container.Obeys π)
    (name : String) : ∀ v ∈ container.member? fields name, v.Obeys π := by
  intro v hv
  unfold member? at hv
  split at hv
  · exact (hfields _).get? v hv
  · exact (obeys_map.mp h).get? v hv
  · cases hv

/-- A container that takes the place of nil is empty. -/
theorem obeys_prepared (h : container.Obeys π) (key : Option Value) :
    (container.prepared key).Obeys π := by
  unfold prepared
  split
  · split
    · exact obeys_array.mpr (by simp)
    · exact obeys_array.mpr (by simp)
    · exact obeys_map.mpr Dict.obeys_nil
  · exact h

/-- Where an element is stored, the container obeys the policy again. -/
theorem obeys_place {key : Option Value} (h : container.Obeys π) (hvalue : value.Obeys π)
    {changed : Value} (hplace : container.place key value = .ok (.container changed)) :
    changed.Obeys π := by
  unfold place at hplace
  split at hplace
  · cases hplace
    exact obeys_array.mpr (by simpa [or_imp, forall_and, hvalue] using obeys_array.mp h)
  · split at hplace
    · cases hplace
      refine obeys_array.mpr fun v hv => ?_
      obtain hv | rfl := List.mem_or_eq_of_mem_set hv
      · exact obeys_array.mp h v hv
      · exact hvalue
    · split at hplace <;> cases hplace
      exact obeys_array.mpr (by simpa [or_imp, forall_and, hvalue] using obeys_array.mp h)
  · cases hplace
  · cases hplace
    exact obeys_map.mpr ((obeys_map.mp h).insert hvalue _)
  all_goals cases hplace

/-! ### Operators -/

theorem obeys_divide {x y : Float} {v : Value} (h : divide x y = .ok v) : v.Obeys π := by
  unfold divide at h
  split at h <;> cases h
  trivial

theorem obeys_remainder {x y : Int64} {v : Value} (h : remainder x y = .ok v) : v.Obeys π := by
  unfold remainder at h
  split at h <;> cases h
  trivial

/-- Arithmetic gives numbers and texts, which obey every policy. -/
theorem obeys_arithmetic {op : BinaryOp} {left right v : Value}
    (h : left.arithmetic op right = .ok v) : v.Obeys π := by
  unfold arithmetic at h
  dsimp only at h
  split at h
  · unfold wholeOp at h
    split at h <;> first | exact obeys_divide h | exact obeys_remainder h | cases h <;> trivial
  · split at h
    · unfold floatOp at h
      split at h <;> first | exact obeys_divide h | exact obeys_remainder h | cases h <;> trivial
    · split at h <;> cases h
      trivial

/-- No operator gives back a function. -/
theorem obeys_binary {op : BinaryOp} {left right v : Value} (h : left.binary op right = .ok v) :
    v.Obeys π := by
  have hordered {holds : Ordering → Bool} (h : left.ordered op holds right = .ok v) :
      v.Obeys π := by
    unfold ordered at h
    split at h <;> cases h
    trivial
  unfold binary at h
  split at h
  · cases h
    trivial
  · cases h
    trivial
  iterate 4 exact hordered h
  exact obeys_arithmetic h

theorem obeys_unary {op : UnaryOp} {operand v : Value} (h : operand.unary op = .ok v) :
    v.Obeys π := by
  unfold unary at h
  split at h <;> cases h <;> trivial

theorem obeys_stepped {op : StepOp} {operand v : Value} (h : operand.stepped op = .ok v) :
    v.Obeys π := by
  unfold stepped at h
  split at h <;> cases h <;> trivial

theorem obeys_zero (tag : Tag) : tag.zero.Obeys π := by
  cases tag with
  | array => exact obeys_array.mpr (by simp)
  | map => exact obeys_map.mpr Dict.obeys_nil
  | _ => trivial

/-- A line of input becomes a plain value. -/
theorem obeys_coerce (tag : Tag) (line : String) : (tag.coerce line).Obeys π := by
  have helim {α : Type} (o : Option α) (f : α → Value) (hf : ∀ a, (f a).Obeys π) :
      (o.elim (.text line) f).Obeys π := by
    cases o with
    | none => trivial
    | some a => exact hf a
  unfold Tag.coerce
  dsimp only
  split
  · split
    · trivial
    · exact helim _ _ fun _ => trivial
  · split
    · trivial
    · exact helim _ _ fun _ => trivial
  · split
    · trivial
    · split <;> trivial
  · trivial

/-! ### Documents -/

mutual

/-- Decoded values are plain. -/
theorem obeys_ofJson (j : Json) : (ofJson j).Obeys π := by
  cases j with
  | array items => exact obeys_array.mpr (obeys_itemsOfJson items)
  | object entries => exact obeys_map.mpr (obeys_entriesOfJson entries)
  | _ => trivial

theorem obeys_itemsOfJson (items : List Json) : ∀ v ∈ itemsOfJson items, v.Obeys π := by
  cases items with
  | nil => simp [itemsOfJson]
  | cons j rest =>
    simp only [itemsOfJson, List.forall_mem_cons]
    exact ⟨obeys_ofJson j, obeys_itemsOfJson rest⟩

theorem obeys_entriesOfJson (entries : List (String × Json)) :
    Dict.Obeys π (entriesOfJson entries) := by
  cases entries with
  | nil => simp [entriesOfJson, Dict.Obeys]
  | cons entry rest =>
    obtain ⟨key, j⟩ := entry
    simp only [entriesOfJson, Dict.Obeys, List.forall_mem_cons]
    exact ⟨obeys_ofJson j, obeys_entriesOfJson rest⟩

end

end Value

/-! ## Tasks -/

namespace Scope

variable {s : Scope} {v : Value}

theorem Obeys.innermost (h : s.Obeys π) : s.innermost.Obeys π := by
  unfold Scope.innermost
  cases hcalls : s.calls with
  | nil => exact h.globals
  | cons frame rest => exact h.calls frame (by simp [hcalls])

/-- The frame that a name belongs to is one of the scope. -/
theorem Obeys.owner (h : s.Obeys π) (name : String) : (s.owner name).Obeys π := by
  unfold Scope.owner
  split
  · exact h.innermost
  · exact h.globals

theorem Obeys.get? (h : s.Obeys π) {name : String} : ∀ v ∈ s.get? name, v.Obeys π :=
  (h.owner name).vars.get?

theorem Obeys.this (h : s.Obeys π) : ∀ v ∈ s.this, v.Obeys π := h.innermost.this

theorem Obeys.modifyInnermost (h : s.Obeys π) {f : Frame → Frame}
    (hf : ∀ frame, frame.Obeys π → (f frame).Obeys π) : (s.modifyInnermost f).Obeys π := by
  unfold Scope.modifyInnermost
  split
  · exact ⟨hf _ h.globals, h.calls⟩
  · rename_i frame rest hcalls
    have hframes := h.calls
    rw [hcalls, List.forall_mem_cons] at hframes
    exact ⟨h.globals, List.forall_mem_cons.mpr ⟨hf _ hframes.1, hframes.2⟩⟩

/-- Assigning a value that obeys keeps a scope that obeys. -/
theorem Obeys.set (h : s.Obeys π) (hv : v.Obeys π) (name : String) : (s.set name v).Obeys π := by
  unfold Scope.set Scope.modifyOwner
  have hf (frame : Frame) (hframe : frame.Obeys π) :
      Frame.Obeys π { frame with vars := Dict.insert name v frame.vars } :=
    ⟨hframe.vars.insert hv name, hframe.this⟩
  split
  · exact h.modifyInnermost hf
  · exact ⟨hf _ h.globals, h.calls⟩

theorem Obeys.declare (h : s.Obeys π) (hv : v.Obeys π) (name : String) (tag : Option Tag) :
    (s.declare name v tag).Obeys π :=
  h.modifyInnermost fun _ hframe => ⟨hframe.vars.insert hv name, hframe.this⟩

end Scope

namespace Task

variable {t : Task}

/-- A new frame has no variables, and its receiver obeys. -/
theorem Obeys.enter (h : t.Obeys π) {this : Option Value} (hthis : ∀ v ∈ this, v.Obeys π) :
    (t.enter this).Obeys π :=
  ⟨h.globals, List.forall_mem_cons.mpr ⟨⟨Dict.obeys_nil, hthis⟩, h.calls⟩⟩

theorem Obeys.leave (h : t.Obeys π) : t.leave.Obeys π :=
  ⟨h.globals, fun frame hframe => h.calls frame (List.mem_of_mem_tail hframe)⟩

end Task

/-! ## Stores -/

namespace Store

variable {s : Store}

theorem Obeys.fields (h : s.Obeys π) (ref : ObjectRef) : Dict.Obeys π (s.fields ref) := by
  unfold Store.fields Array.getD
  split
  · exact h.objects _ (Array.getElem_mem _)
  · exact Dict.obeys_nil

/-- A change of one object keeps a store that obeys. -/
theorem Obeys.modifyFields (h : s.Obeys π) (ref : ObjectRef) {f : Dict Value → Dict Value}
    (hf : ∀ d, Dict.Obeys π d → Dict.Obeys π (f d)) : (s.modifyFields ref f).Obeys π := by
  refine { h with objects := fun fields hfields => ?_ }
  obtain ⟨i, hi, rfl⟩ := Array.mem_iff_getElem.mp hfields
  simp only [Store.modifyFields, Array.size_modify, Array.getElem_modify] at hi ⊢
  split
  · exact hf _ (h.objects _ (Array.getElem_mem _))
  · exact h.objects _ (Array.getElem_mem _)

theorem Obeys.setField (h : s.Obeys π) (ref : ObjectRef) (name : String) {v : Value}
    (hv : v.Obeys π) : (s.setField ref name v).Obeys π :=
  h.modifyFields ref fun _ hd => hd.insert hv name

theorem Obeys.newObject (h : s.Obeys π) (className : String) {fields : Dict Value}
    (hfields : Dict.Obeys π fields) : (s.newObject className fields).2.Obeys π := by
  refine { h with objects := fun d hd => ?_ }
  obtain hd | rfl := Array.mem_push.mp hd
  · exact h.objects d hd
  · exact hfields

theorem Obeys.newChannel (h : s.Obeys π) (capacity : Nat) : (s.newChannel capacity).2.Obeys π := by
  refine { h with channels := fun c hc => ?_ }
  obtain hc | rfl := Array.mem_push.mp hc
  · exact h.channels c hc
  · simp

/-- A channel may be replaced by one whose values obey. -/
theorem Obeys.setChannel (h : s.Obeys π) (id : Nat) {c : Channel}
    (hc : ∀ v ∈ c.queue, v.Obeys π) :
    Store.Obeys π { s with channels := s.channels.setIfInBounds id c } := by
  refine { h with channels := fun c' hc' => ?_ }
  obtain hc' | rfl := Array.mem_or_eq_of_mem_setIfInBounds hc'
  · exact h.channels c' hc'
  · exact hc

/-- A future may be settled with an outcome that obeys. -/
theorem Obeys.newFuture (h : s.Obeys π) {outcome : Option (Except Signal Value)}
    (houtcome : ∀ o ∈ outcome, Signal.Ends (Signal.Obeys π) (Value.Obeys π) o) :
    (s.newFuture outcome).2.Obeys π := by
  refine { h with futures := fun o ho => ?_ }
  obtain ho | ho := Array.mem_push.mp ho
  · exact h.futures o ho
  · exact houtcome o ho.symm

theorem Obeys.declareFunction (h : s.Obeys π) {decl : FunctionDecl} (hdecl : decl.passes π.code) :
    Store.Obeys π { s with functions := Dict.insert decl.name decl s.functions } := by
  refine { h with functions := fun e he => ?_, known := fun word hword => ?_ }
  · obtain rfl | he := Dict.mem_insert he
    · exact hdecl
    · exact h.functions e he
  · have := h.known word hword
    simp only [Dict.contains, Dict.get?_insert] at this ⊢
    split
    · rfl
    · exact this

theorem Obeys.withAsked (h : s.Obeys π) (asked : Nat) : Store.Obeys π { s with asked } :=
  { h with }

end Store

/-- A class that passes keeps a store that obeys, because the policy allows its registration. -/
theorem Store.Obeys.declareClass {s : Store} (h : s.Obeys π) {decl : ClassDecl}
    (hstmt : π.code.stmt (.classDef decl)) (hdecl : decl.passes π.code) {classes : ClassTable}
    (hregister : s.classes.register decl = .ok classes) :
    Store.Obeys π { s with classes } := by
  refine { h with classes := fun e he => ?_, table := π.register hstmt h.table hregister }
  obtain heq | ⟨e', he', heq⟩ := ClassTable.mem_register hregister he
  · rw [heq]
    exact hdecl
  · rw [heq]
    exact h.classes e' he'

/-- The defaults along a chain pass the check, since they belong to declared classes. -/
theorem ClassTable.passes_of_initial {t : ClassTable}
    (h : ∀ entry ∈ t.entries, entry.decl.passes π.code) {className : String} {entry : ClassEntry}
    (hentry : entry ∈ t.chain className) {property : PropertyDecl}
    (hproperty : property ∈ entry.decl.properties) {e : Expr} (he : property.initial = some e) :
    e.passes π.code := by
  have hdecl := ClassDecl.passes_iff.mp (h entry (mem_of_mem_chain hentry))
  exact PropertyDecl.passes_iff.mp (hdecl.1 property hproperty) e he

theorem Evaluator.declareClass_eq (decl : ClassDecl) (t : Task) (s : Store) :
    Evaluator.declareClass decl t s =
      match s.classes.register decl with
      | .ok classes => .finished (.value ()) t { s with classes }
      | .error fault => .finished (.signal (.failed fault)) t s := by
  change (Script.ofExcept (s.classes.register decl) t s).bind _ = _
  cases s.classes.register decl <;> rfl

/-! ## Requests -/

/-- What an answered request brings obeys the policy, and so does the store it leaves. -/
theorem Request.obeys_of_attempt? {r : Request} (hr : r.Obeys π) {s s' : Store} (hs : s.Obeys π)
    {reply : r.Reply} (h : r.attempt? s = some (reply, s')) : r.Brings π reply ∧ s'.Obeys π := by
  have hqueue {id : Nat} {c : Channel} (hc : s.channels[id]? = some c) :
      ∀ v ∈ c.queue, v.Obeys π := hs.channels c (Array.mem_of_getElem? hc)
  cases r with
  | offer channel value =>
    simp only [attempt?] at h
    split at h
    · cases h
    · rename_i c hc
      obtain ⟨offered, hoffer, h⟩ := Option.map_eq_some_iff.mp h
      split at h <;> cases h
      · exact ⟨trivial, hs⟩
      · refine ⟨trivial, hs.setChannel _ ?_⟩
        unfold Channel.offer? at hoffer
        split at hoffer
        · cases hoffer
        · split at hoffer <;> cases hoffer
          simpa [or_imp, forall_and] using ⟨hqueue hc, hr⟩
  | settle channel ticket =>
    simp only [attempt?] at h
    split at h
    · cases h
    · split at h <;> cases h
      exact ⟨trivial, hs⟩
  | take channel =>
    simp only [attempt?] at h
    split at h
    · cases h
    · rename_i c hc
      obtain ⟨taken, htake, h⟩ := Option.map_eq_some_iff.mp h
      cases h
      have hc := hqueue hc
      unfold Channel.take? at htake
      split at htake
      · rename_i value rest hrest
        cases htake
        rw [hrest, List.forall_mem_cons] at hc
        exact ⟨by rintro _ ⟨⟩; exact hc.1, hs.setChannel _ hc.2⟩
      · split at htake <;> cases htake
        exact ⟨by rintro _ ⟨⟩, hs.setChannel _ hc⟩
  | await future =>
    obtain ⟨outcome, hfuture, h⟩ := Option.map_eq_some_iff.mp h
    cases h
    refine ⟨hs.futures reply ?_, hs⟩
    unfold Array.getD at hfuture
    split at hfuture
    · exact hfuture ▸ Array.getElem_mem _
    · cases hfuture

/-! ## No restriction -/

def Policy.free : Policy where
  code := ⟨fun _ => true, fun _ => true⟩
  builtin _ := True
  known _ := false
  table _ := True
  unbounded := True
  builtin_of_name _ _ := trivial
  unbounded_of_builtin _ _ := trivial
  unbounded_of_stmt _ _ := trivial
  register _ _ _ := trivial

theorem FunctionDecl.passes_free (decl : FunctionDecl) : decl.passes Policy.free.code :=
  (NodeCheck.passes_of_forall (fun _ => rfl) fun _ => rfl).2.1 decl

mutual

/-- Every value obeys the policy without restrictions. -/
theorem Value.obeys_free : (v : Value) → v.Obeys .free
  | .array items => by
    rw [Value.Obeys]
    exact Value.allObey_free items
  | .map entries => by
    rw [Value.Obeys]
    exact Value.entriesObey_free entries
  | .function decl | .method decl _ => decl.passes_free
  | .builtin _ | .future _ | .channel _ | .nil | .bool _ | .int _ | .float _ | .text _
  | .object _ | .classRef _ | .stream _ => trivial

theorem Value.allObey_free : (l : List Value) → Value.AllObey .free l
  | [] => trivial
  | v :: rest => ⟨Value.obeys_free v, Value.allObey_free rest⟩

theorem Value.entriesObey_free : (l : List (String × Value)) → Value.EntriesObey .free l
  | [] => trivial
  | (_, v) :: rest => ⟨Value.obeys_free v, Value.entriesObey_free rest⟩

end

theorem Signal.obeys_free (x : Signal) : x.Obeys .free := by
  cases x with
  | returned v | thrown v => exact v.obeys_free
  | _ => trivial

theorem Task.obeys_free (t : Task) : t.Obeys .free := by
  have hframe (frame : Frame) : frame.Obeys .free :=
    ⟨fun e _ => e.2.obeys_free, fun v _ => v.obeys_free⟩
  exact ⟨hframe _, fun frame _ => hframe frame⟩

/-- Every store obeys it. -/
theorem Store.obeys_free (s : Store) : s.Obeys .free := by
  obtain ⟨-, -, hblock, -, -, hclass, -⟩ :=
    NodeCheck.passes_of_forall (c := Policy.free.code) (fun _ => rfl) fun _ => rfl
  refine {
    functions := fun e _ => e.2.passes_free
    known := fun word h => by cases h
    classes := fun e _ => hclass e.decl
    table := trivial
    objects := fun fields _ e _ => e.2.obeys_free
    channels := fun c _ v _ => v.obeys_free
    futures := fun outcome _ => ?_
    files := fun _ _ _ program _ _ => hblock program.statements }
  cases outcome with
  | ok v => exact v.obeys_free
  | error x => exact x.obeys_free

theorem Job.obeys_free (job : Job) : job.Obeys .free := by
  obtain ⟨hexpr, -, hblock, -⟩ :=
    NodeCheck.passes_of_forall (c := Policy.free.code) (fun _ => rfl) fun _ => rfl
  cases job with
  | expr e => exact hexpr e
  | block body => exact hblock body
  | call callee args => exact ⟨callee.obeys_free, fun v _ => v.obeys_free⟩
  | load place body => exact hblock body

theorem Request.brings_free (r : Request) (reply : r.Reply) : r.Brings .free reply := by
  cases r with
  | offer | settle => trivial
  | take channel => exact fun v _ => v.obeys_free
  | await future =>
    cases (reply : Except Signal Value) with
    | ok v => exact v.obeys_free
    | error x => exact x.obeys_free

end RouteScript
