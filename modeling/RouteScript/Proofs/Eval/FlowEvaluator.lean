import RouteScript.Proofs.Eval.FlowServices

/-!
# Expressions and statements under a policy

Every job whose code passes the check of a policy is carried out by a rule under the policy, if the
jobs inside it, the objects that it makes and the frame that it belongs to are within reach.
-/

namespace RouteScript

open Relation (TransGen)

/-! ## What a job needs -/

/-- Whether an expression by itself uses the variables in sight. A call by name does not if the name
belongs to a function that is known or built in. -/
def Expr.isOpen (known : String → Bool) : Expr → Bool
  | .call (.name word) _ => word == "async" || !(known word || (Builtin.ofName? word).isSome)
  | .call .. | .name _ | .assign .. | .step .. | .isset _ | .empty _ => true
  | .binary _ op _ => op == .pipe || op == .shiftRight
  | _ => false

def Stmt.isOpen : Stmt → Bool
  | .declare .. | .forEach .. | .tryCatch .. | .returns _ | .breaks | .continues | .load _ => true
  | _ => false

namespace Job

/-- Whether a job by itself uses the variables in sight or jumps. A call does if it hands work over
to a new task. -/
def isOpen (known : String → Bool) : Job → Bool
  | .expr e => e.isOpen known
  | .block body => body.any Stmt.isOpen
  | .load .. => true
  | .call (.builtin .async) (_ :: _) => true
  | .call .. => false

def isLoad : Job → Bool
  | .load .. => true
  | _ => false

/-- A job by itself may make an object of a class. A member of a class is one of a new object. -/
def MayBuild (className : String) : Job → Prop
  | .expr (.create name _) => className = name
  | .expr (.member ..) | .expr (.call (.member ..) _) => True
  | _ => False

theorem allows_of_buildsOnly {allowed : String → Bool} {job : Job} (h : job.buildsOnly allowed)
    {className : String} (hbuild : job.MayBuild className) : allowed className := by
  unfold MayBuild at hbuild
  split at hbuild
  · exact hbuild ▸ h
  · cases h
  · cases h
  · contradiction

/-- A job by itself may have a value called back. A call does so with its arguments only. -/
def MayCallBack (v : Value) : Job → Prop
  | .call _ args => v ∈ args
  | _ => True

end Job

structure Reach.Covers {π : Policy} (R : Reach π) (job : Job) : Prop where
  obeys : job.Obeys π
  home : job.isOpen π.known → R.atHome
  starts : job.isLoad → R.starts
  parts : ∀ part, TransGen Job.HasPart job part → R.job part
  builds : ∀ className, job.MayBuild className → R.builds className
  back : ∀ v : Value, v.Obeys π → job.MayCallBack v → R.job (.call v [])

/-- Everything that obeys the policy is within reach. -/
def Reach.full (π : Policy) : Reach π where
  job := Job.Obeys π
  builds _ := True
  atHome := True
  starts := True
  initial _ hcode _ hentry hproperty he :=
    ClassTable.passes_of_initial hcode hentry hproperty he

/-- With full reach a rule may do all that the policy allows. -/
theorem Reach.full_covers {π : Policy} {job : Job} (h : job.Obeys π) :
    (Reach.full π).Covers job where
  obeys := h
  home _ := trivial
  starts _ := trivial
  parts _ hpart := h.of_transGen hpart
  builds _ _ := trivial
  back _ hv _ := ⟨hv, by simp⟩

theorem Builtin.name_of_ofName? {word : String} {b : Builtin} (h : Builtin.ofName? word = some b) :
    b.name = word := by
  simpa using List.find?_some h

namespace Evaluator

variable {π : Policy} {R : Reach π} {args : List Value}

/-! ## Calls -/

/-- A method runs in a frame of its own, so that the call asks nothing of the frame of the
caller. -/
theorem flow_callMethod {method : FunctionDecl} (hmethod : method.passes π.code)
    (receiver : ObjectRef) (hargs : ∀ v ∈ args, v.Obeys π)
    (hback : ∀ v ∈ args, R.job (.call v [])) :
    Flow π R (fun ev => ev.callMethod method receiver args) (Value.Obeys π) := by
  refine .ite (fun _ => .invoke hmethod hargs ?_) fun _ => .bind .store fun s _ => ?_
  · rintro _ ⟨⟩
    trivial
  · cases s.classes.hostedAncestor? receiver.className with
    | none => exact .fail _
    | some className =>
      dsimp only
      cases Dict.get? className s.services with
      | none => exact .fail _
      | some service => exact service.flow_call className hargs hback

/-- A default needs a reach that its expression is within. -/
theorem flow_initialValue {property : PropertyDecl}
    (h : ∀ e, property.initial = some e → R.job (.expr e)) :
    Flow π R (fun ev => ev.initialValue property) (Value.Obeys π) := by
  unfold initialValue
  cases hinitial : property.initial with
  | some e => exact .expr (h e hinitial)
  | none =>
    cases property.typeName with
    | some typeName => exact .pure (Value.obeys_zero _)
    | none => exact .pure trivial

theorem flow_fillProperties (ref : ObjectRef) {properties : List PropertyDecl}
    (h : ∀ property ∈ properties, ∀ e, property.initial = some e → R.job (.expr e)) :
    Flow π R (fun ev => ev.fillProperties ref properties) fun _ => True := by
  induction properties with
  | nil => exact .pure trivial
  | cons property rest ih =>
    rw [List.forall_mem_cons] at h
    exact .bind (flow_initialValue h.1) fun _ hv => .bind (.setField ref _ hv) fun _ _ => ih h.2

/-- The reach of a class includes the defaults along its chain. -/
theorem flow_newObject {className : String} (hbuilds : R.builds className) :
    Flow π R (fun ev => ev.newObject className) fun _ => True := by
  refine .bind .store fun s hs => .ite (fun _ => ?_) fun _ => .fail _
  refine .bind (P := fun _ => True) (.update fun _ hs => ?_) fun ref _ =>
    .bind (flow_fillProperties ref ?_) fun _ _ => .pure trivial
  · exact ⟨.object className [], hs.newObject className Dict.obeys_nil, trivial⟩
  · intro property hproperty e he
    obtain ⟨entry, hentry, hproperty⟩ := List.mem_flatMap.mp hproperty
    exact R.initial hs.table hs.classes hbuilds (List.mem_reverse.mp hentry) hproperty he

/-- Methods are declared by code under the policy. -/
theorem passes_of_findMethod? {s : Store} (hs : s.Obeys π) {className method : String}
    {decl : FunctionDecl} (h : s.classes.findMethod? className method = some decl) :
    decl.passes π.code := by
  obtain ⟨entry, hentry, hdecl⟩ := List.exists_of_findSome?_eq_some h
  have hpasses := hs.classes entry (ClassTable.mem_of_mem_chain hentry)
  exact (ClassDecl.passes_iff.mp hpasses).2 decl (List.mem_of_find?_eq_some hdecl)

theorem passes_of_resolve? {s : Store} (hs : s.Obeys π) {className method : String}
    {decl : FunctionDecl} (h : s.classes.resolve? className method = some decl) :
    decl.passes π.code := by
  obtain h | ⟨-, h⟩ := Option.or_eq_some_iff.mp h
  · exact passes_of_findMethod? hs h
  · obtain ⟨_, -, rfl⟩ := Option.map_eq_some_iff.mp h
    rfl

/-- The constructor is called in a frame of its own, unlike the defaults. -/
theorem flow_create {className : String} (hbuilds : R.builds className)
    (hargs : ∀ v ∈ args, v.Obeys π) (hback : ∀ v ∈ args, R.job (.call v [])) :
    Flow π R (fun ev => ev.create className args) fun _ => True := by
  refine .bind (flow_newObject hbuilds) fun ref _ => .bind .store fun s hs => ?_
  cases hconstructor : s.classes.findMethod? className "constructor" with
  | some constructor =>
    have hpasses := passes_of_findMethod? hs hconstructor
    exact .bind (flow_callMethod hpasses ref hargs hback) fun _ _ => .pure trivial
  | none =>
    cases (s.classes.hostedAncestor? className).bind fun name =>
        (Dict.get? name s.services).map (name, ·) with
    | some hosted => exact .bind (hosted.2.flow_call _ hargs hback) fun _ _ => .pure trivial
    | none => exact .pure trivial

theorem flow_callValue {callee : Value} (hcallee : callee.Obeys π)
    (hhome : (Job.call callee args).isOpen π.known → R.atHome) (hargs : ∀ v ∈ args, v.Obeys π)
    (hback : ∀ v ∈ args, R.job (.call v [])) :
    Flow π R (fun ev => ev.callValue callee args) (Value.Obeys π) := by
  cases callee with
  | function decl =>
    refine .scope (fun t t' h => ?_) fun sc hsc => .invoke hcallee hargs hsc.this
    rw [h.this]
  | method decl receiver => exact flow_callMethod hcallee receiver hargs hback
  | builtin b =>
    refine Builtin.flow_call hcallee (fun hasync hne => hhome ?_) hargs
    subst hasync
    cases args with
    | nil => contradiction
    | cons => rfl
  | _ => exact .fail _

/-- A name that is known to stand for a function or a builtin is called without a look at the
variables. -/
theorem flow_callNamed {word : String} (hcode : π.code.expr (.name word))
    (hhome : (word == "async" || !(π.known word || (Builtin.ofName? word).isSome)) → R.atHome)
    (hargs : ∀ v ∈ args, v.Obeys π) (hback : ∀ v ∈ args, R.job (.call v [])) :
    Flow π R (fun ev => ev.callNamed word args) (Value.Obeys π) := by
  refine .bind .store fun s hs => ?_
  cases hfunction : Dict.get? word s.functions with
  | some decl => exact .invoke (hs.functions _ (Dict.mem_of_get? hfunction)) hargs (by simp)
  | none =>
    cases hbuiltin : Builtin.ofName? word with
    | some b =>
      refine b.flow_call (π.builtin_of_name hcode hbuiltin) (fun hasync _ => hhome ?_) hargs
      have hname := Builtin.name_of_ofName? hbuiltin
      subst hasync
      simp [← hname, Builtin.name]
    | none =>
      -- neither a function nor built in, so the name is looked up in the variables
      have hunknown : π.known word = false := by
        cases hknown : π.known word with
        | false => rfl
        | true => simpa [Dict.contains, hfunction] using hs.known word hknown
      have home : R.atHome := hhome (by simp [hunknown, hbuiltin])
      refine .scope (fun t t' h => ?_) fun sc hsc => ?_
      · rw [h.get?_eq home]
      · cases hv : sc.get? word with
        | some v => exact flow_callValue (hsc.get? v hv) (fun _ => home) hargs hback
        | none => exact .fail _

/-- A member of a class is one of a new object, so that a member call may make objects of any class.
-/
theorem flow_callMember {receiver : Value} (hreceiver : receiver.Obeys π) (property : String)
    (home : R.atHome) (hbuilds : ∀ className, R.builds className) (hargs : ∀ v ∈ args, v.Obeys π)
    (hback : ∀ v ∈ args, R.job (.call v [])) :
    Flow π R (fun ev => ev.callMember receiver property args) (Value.Obeys π) := by
  cases receiver with
  | object ref =>
    refine .bind .store fun s hs => ?_
    cases hfield : (Dict.get? property (s.fields ref)).filter Value.isCallable with
    | some v =>
      have hv := (hs.fields ref).get? v (Option.filter_eq_some_iff.mp hfield).1
      exact flow_callValue hv (fun _ => home) hargs hback
    | none =>
      dsimp only
      cases hdecl : s.classes.resolve? ref.className property with
      | some decl => exact flow_callMethod (passes_of_resolve? hs hdecl) ref hargs hback
      | none => exact .fail _
  | classRef className =>
    refine .bind .store fun s hs => ?_
    cases hdecl : s.classes.resolve? className property with
    | some decl =>
      exact .bind (flow_newObject (hbuilds className)) fun ref _ =>
        flow_callMethod (passes_of_resolve? hs hdecl) ref hargs hback
    | none => exact .fail _
  | map entries =>
    simp only [callMember]
    cases hfield : (Dict.get? property entries).filter Value.isCallable with
    | some v =>
      have hv := (Value.obeys_map.mp hreceiver).get? v (Option.filter_eq_some_iff.mp hfield).1
      exact flow_callValue hv (fun _ => home) hargs hback
    | none => exact .fail _
  | _ => exact .fail _

/-- A new task gets what is in sight as its globals, so that starting one needs to be at home. -/
theorem flow_spawnExpr (arguments : List Expr) (hbound : π.unbounded) (home : R.atHome) :
    Flow π R (fun _ => spawnExpr arguments) (Value.Obeys π) := by
  match arguments with
  | [e] => exact .spawn _ hbound home
  | [] | _ :: _ :: _ => exact .fail _

/-- A call is covered if its callee and its arguments are. -/
theorem flow_call {callee : Expr} {arguments : List Expr}
    (h : R.Covers (.expr (.call callee arguments))) :
    Flow π R (fun ev => ev.call callee arguments) (Value.Obeys π) := by
  have hcode : (Expr.call callee arguments).passes π.code := h.obeys
  simp only [Expr.passes, Bool.and_eq_true] at hcode
  have harguments : Flow π R (fun ev => ev.exprs arguments) fun args => ∀ v ∈ args, v.Obeys π := by
    refine .exprs fun e he => h.parts _ (.single ?_)
    simp [Job.HasPart, Job.parts, Expr.parts, he]
  have hcallbacks {args : List Value} (hargs : ∀ v ∈ args, v.Obeys π) :
      ∀ v ∈ args, R.job (.call v []) := fun v hv => h.back v (hargs v hv) trivial
  have other (e : Expr) (hcallee : R.job (.expr e)) (home : R.atHome) :
      Flow π R (fun ev => do
        let callee ← ev.expr e
        let args ← ev.exprs arguments
        ev.callValue callee args) (Value.Obeys π) :=
    .bind (.expr hcallee) fun callee hcallee => .bind harguments fun args hargs =>
      flow_callValue hcallee (fun _ => home) hargs (hcallbacks hargs)
  have hpart {e : Expr} (he : e.calleeParts = [.expr e]) (hcall : callee = e) :
      R.job (.expr e) := by
    subst hcall
    exact h.parts _ (.single (by simp [Job.HasPart, Job.parts, Expr.parts, he]))
  cases callee with
  | name word =>
    have hname : π.code.expr (.name word) := Expr.check_of_passes hcode.1.2
    have hrest : Flow π R (fun ev => do
        let args ← ev.exprs arguments
        ev.callNamed word args) (Value.Obeys π) :=
      .bind harguments fun args hargs => flow_callNamed hname h.home hargs (hcallbacks hargs)
    refine .scope (fun t t' halike => ?_) fun sc _ => .ite (fun hasync => ?_) fun _ => hrest
    · by_cases hasync : word = "async"
      · rw [halike.contains_eq (h.home (by simp [Job.isOpen, Expr.isOpen, hasync]))]
      · simp [hasync]
    · obtain rfl : word = "async" := by simpa using And.left (by simpa using hasync)
      have hbuiltin : π.builtin .async := π.builtin_of_name hname (by decide)
      exact flow_spawnExpr arguments (π.unbounded_of_builtin hbuiltin (.inl rfl)) (h.home rfl)
  | member object property access =>
    have hobject : R.job (.expr object) := by
      refine h.parts _ (.tail (.single (b := .expr (.member object property access)) ?_) ?_)
      · simp [Job.HasPart, Job.parts, Expr.parts, Expr.calleeParts]
      · simp [Job.HasPart, Job.parts, Expr.parts]
    exact .bind (.expr hobject) fun receiver hreceiver => .bind harguments fun args hargs =>
      flow_callMember hreceiver property (h.home rfl) (fun className => h.builds className trivial)
        hargs (hcallbacks hargs)
  | _ => exact other _ (hpart rfl rfl) (h.home rfl)

theorem flow_pipe {input : Value} (hinput : input.Obeys π) (home : R.atHome) {target : Expr}
    (hcode : target.passes π.code) (htarget : R.job (.expr target))
    (hparts : ∀ part, TransGen Job.HasPart (.expr target) part → R.job part)
    (hback : ∀ v : Value, v.Obeys π → R.job (.call v [])) :
    Flow π R (fun ev => ev.pipe input target) (Value.Obeys π) := by
  have hcallbacks {args : List Value} (hargs : ∀ v ∈ args, v.Obeys π) :
      (∀ v ∈ input :: args, v.Obeys π) ∧ ∀ v ∈ input :: args, R.job (.call v []) := by
    have hall : ∀ v ∈ input :: args, v.Obeys π := List.forall_mem_cons.mpr ⟨hinput, hargs⟩
    exact ⟨hall, fun v hv => hback v (hall v hv)⟩
  have other (e : Expr) (he : R.job (.expr e)) {args : List Value} (hargs : ∀ v ∈ args, v.Obeys π) :
      Flow π R (fun ev => do
        let callee ← ev.expr e
        ev.callValue callee (input :: args)) (Value.Obeys π) :=
    .bind (.expr he) fun callee hcallee =>
      flow_callValue hcallee (fun _ => home) (hcallbacks hargs).1 (hcallbacks hargs).2
  have named (word : String) (hword : π.code.expr (.name word)) {args : List Value}
      (hargs : ∀ v ∈ args, v.Obeys π) :
      Flow π R (fun ev => ev.callNamed word (input :: args)) (Value.Obeys π) :=
    flow_callNamed hword (fun _ => home) (hcallbacks hargs).1 (hcallbacks hargs).2
  cases target with
  | name word => exact named word (Expr.check_of_passes hcode) (by simp)
  | call callee arguments =>
    simp only [Expr.passes, Bool.and_eq_true] at hcode
    refine .bind (.exprs fun e he => hparts _ (.single ?_)) fun args hargs => ?_
    · simp [Job.HasPart, Job.parts, Expr.parts, he]
    have hpart {e : Expr} (he : e.calleeParts = [.expr e]) (hcall : callee = e) :
        R.job (.expr e) := by
      subst hcall
      exact hparts _ (.single (by simp [Job.HasPart, Job.parts, Expr.parts, he]))
    cases callee with
    | name word => exact named word (Expr.check_of_passes hcode.1.2) hargs
    | _ => exact other _ (hpart rfl rfl) hargs
  | _ => exact other _ htarget (by simp)

/-! ## Targets -/

theorem flow_key {key : Option Expr} (h : ∀ e ∈ key, R.job (.expr e)) :
    Flow π R (fun ev => key.mapM ev.expr) fun _ => True := by
  cases key with
  | none => exact .pure trivial
  | some e => exact .map some (.expr (h e rfl)) fun _ _ => trivial

/-- The target and the key are parts of an element. -/
theorem hasPart_index {target : Expr} {key : Option Expr} :
    (Job.expr (.index target key)).HasPart (.expr target) ∧
      ∀ e ∈ key, (Job.expr (.index target key)).HasPart (.expr e) := by
  refine ⟨by simp [Job.HasPart, Job.parts, Expr.parts], ?_⟩
  rintro e ⟨⟩
  simp [Job.HasPart, Job.parts, Expr.parts]

/-- An assignment works through variables in sight, so that it needs to be at home. -/
theorem flow_assign (home : R.atHome) (target : Expr) {value : Value} (hvalue : value.Obeys π)
    (hparts : ∀ part, TransGen Job.HasPart (.expr target) part → R.job part) :
    Flow π R (fun ev => ev.assign target value) fun _ => True := by
  match target with
  | .name word => exact .assign word home hvalue
  | .member object property access =>
    have hpart : (Job.expr (.member object property access)).HasPart (.expr object) := by
      simp [Job.HasPart, Job.parts, Expr.parts]
    have ih {changed : Value} (hchanged : changed.Obeys π) :
        Flow π R (fun ev => ev.assign object changed) fun _ => True :=
      flow_assign home object hchanged fun part h => hparts part (.head hpart h)
    refine .bind (.expr (hparts _ (.single hpart))) fun v hv => ?_
    cases v with
    | object ref => exact .setField _ _ hvalue
    | map entries =>
      exact .ite (fun _ => .fail _) fun _ =>
        ih (Value.obeys_map.mpr ((Value.obeys_map.mp hv).insert hvalue property))
    | nil =>
      refine .ite (fun _ => .fail _) fun _ => ih (Value.obeys_map.mpr ?_)
      simpa [Dict.Obeys] using hvalue
    | _ => exact .fail _
  | .index target key =>
    have hkey : Flow π R (fun ev => key.mapM ev.expr) fun _ => True :=
      flow_key fun e he => hparts _ (.single (hasPart_index.2 e he))
    have htarget : Flow π R (fun ev => ev.expr target) (Value.Obeys π) :=
      .expr (hparts _ (.single hasPart_index.1))
    have ih {changed : Value} (hchanged : changed.Obeys π) :
        Flow π R (fun ev => ev.assign target changed) fun _ => True :=
      flow_assign home target hchanged fun part h => hparts part (.head hasPart_index.1 h)
    cases target with
    | name word => exact .bind hkey fun key _ => .storeIn word key home hvalue
    | _ =>
      refine .bind hkey fun key _ => .bind htarget fun container hcontainer => ?_
      refine .bind (.ofExcept fun _ h => h) fun placed hplaced => ?_
      cases placed with
      | container changed =>
        exact ih (Value.obeys_place (Value.obeys_prepared hcontainer key) hvalue hplaced)
      | field ref field => exact .setField _ _ hvalue
  | .int _ | .float _ | .text _ | .bool _ | .nil | .this | .call .. | .create .. | .assign ..
  | .choice .. | .binary .. | .unary .. | .step .. | .array _ | .map _ | .block _ | .function _
  | .isset _ | .empty _ => exact .fail _

theorem flow_existing? (home : R.atHome) (target : Expr)
    (hparts : ∀ part, TransGen Job.HasPart (.expr target) part → R.job part) :
    Flow π R (fun ev => ev.existing? target) fun found => ∀ v ∈ found, v.Obeys π := by
  match target with
  | .name word =>
    refine .scope (fun t t' h => ?_) fun sc hsc => .pure hsc.get?
    rw [h.get?_eq home]
  | .this =>
    refine .scope (fun t t' h => ?_) fun sc hsc => .pure hsc.this
    rw [h.this]
  | .index target (some key) =>
    have ih := flow_existing? home target fun part h => hparts part (.head hasPart_index.1 h)
    refine .bind ih fun v hv => ?_
    cases v with
    | none => exact .pure (by simp)
    | some container =>
      have hkey : R.job (.expr key) := hparts _ (.single (hasPart_index.2 key rfl))
      exact .bind (.expr hkey) fun key _ => .bind .store fun s hs =>
        .pure (Value.obeys_element? hs.fields (hv container rfl))
  | .member object property access =>
    have hpart : (Job.expr (.member object property access)).HasPart (.expr object) := by
      simp [Job.HasPart, Job.parts, Expr.parts]
    have ih := flow_existing? home object fun part h => hparts part (.head hpart h)
    refine .bind ih fun v hv => ?_
    cases v with
    | none => exact .pure (by simp)
    | some container =>
      exact .bind .store fun s hs =>
        .pure (Value.obeys_member? hs.fields (hv container rfl) property)
  | .index _ none | .int _ | .float _ | .text _ | .bool _ | .nil | .call .. | .create ..
  | .assign .. | .choice .. | .binary .. | .unary .. | .step .. | .array _ | .map _ | .block _
  | .function _ | .isset _ | .empty _ => exact .pure (by simp)

theorem flow_allExist (home : R.atHome) {operands : List Expr}
    (hparts : ∀ e ∈ operands, ∀ part, TransGen Job.HasPart (.expr e) part → R.job part) :
    Flow π R (fun ev => ev.allExist operands) fun _ => True := by
  induction operands with
  | nil => exact .pure trivial
  | cons e rest ih =>
    rw [List.forall_mem_cons] at hparts
    refine .bind (flow_existing? home e hparts.1) fun v _ => ?_
    cases v with
    | none => exact .pure trivial
    | some _ => exact ih hparts.2

/-! ## Expressions -/

/-- What a name stands for obeys the policy, be it a variable, a function, a class or a builtin. -/
theorem obeys_lookup {word : String} (hword : π.code.expr (.name word)) {t : Task} (ht : t.Obeys π)
    {s : Store} (hs : s.Obeys π) : (lookup word t s).Obeys π := by
  unfold lookup
  cases hget : t.scope.get? word with
  | some v => exact ht.get? v hget
  | none =>
    cases hfunction : Dict.get? word s.functions with
    | some decl => exact hs.functions _ (Dict.mem_of_get? hfunction)
    | none =>
      dsimp only
      split
      · trivial
      split
      · trivial
      split
      · trivial
      cases hbuiltin : Builtin.ofName? word with
      | none => trivial
      | some b => exact π.builtin_of_name hword hbuiltin

theorem flow_readMember {object : Value} (hobject : object.Obeys π) (property : String)
    (hbuilds : ∀ className, R.builds className) :
    Flow π R (fun ev => ev.readMember object property) (Value.Obeys π) := by
  cases object with
  | object ref =>
    refine .bind .store fun s hs => ?_
    split
    · exact .pure ((hs.fields ref).get? _ ‹_›)
    · refine .pure ?_
      cases hdecl : s.classes.resolve? ref.className property with
      | none => trivial
      | some decl => exact passes_of_resolve? hs hdecl
  | classRef className =>
    refine .bind (flow_newObject (hbuilds className)) fun receiver _ => .bind .store fun s hs => ?_
    split
    · exact .pure (passes_of_resolve? hs ‹_›)
    · exact .fail _
  | map entries =>
    exact .pure (Value.obeys_getD (Value.obeys_map.mp hobject).get? trivial)
  | nil => exact .pure trivial
  | _ => exact .fail _

theorem flow_readLine : Flow π R (fun _ => readLine) fun _ => True := by
  refine .bind .store fun s _ => .ite (fun _ => .pure trivial) fun _ => ?_
  refine .bind (.modifyStore (fun _ => .input _) fun _ hs => { hs with }) fun _ _ => ?_
  split
  · exact .fail _
  · exact .pure trivial

theorem flow_readInto (home : R.atHome) (target : Expr)
    (hparts : ∀ part, TransGen Job.HasPart (.expr target) part → R.job part) :
    Flow π R (fun ev => ev.readInto target) fun _ => True := by
  refine .bind flow_readLine fun line _ => ?_
  cases target with
  | name word =>
    refine .scope (fun t t' h => ?_) fun sc _ => flow_assign home _ ?_ hparts
    · rw [h.tag?_eq home]
    · cases sc.tag? word with
      | none => trivial
      | some tag => exact Value.obeys_coerce tag line
  | _ => exact flow_assign home _ trivial hparts

/-- The right operand may be left out, written to or called, and is within reach for each of these.
-/
theorem flow_binary {left right : Expr} {op : BinaryOp}
    (h : R.Covers (.expr (.binary left op right))) :
    Flow π R (fun ev => ev.binary left op right) (Value.Obeys π) := by
  have hpart : (Job.expr (.binary left op right)).HasPart (.expr right) := by
    simp [Job.HasPart, Job.parts, Expr.parts]
  have hright : R.job (.expr right) := h.parts _ (.single hpart)
  have hparts (part : Job) (hp : TransGen Job.HasPart (.expr right) part) : R.job part :=
    h.parts part (.head hpart hp)
  have hcode : (Expr.binary left op right).passes π.code := h.obeys
  simp only [Expr.passes, Bool.and_eq_true] at hcode
  refine .bind (.expr (h.parts _ (.single ?_))) fun first hfirst => ?_
  · simp [Job.HasPart, Job.parts, Expr.parts]
  have other : Flow π R (fun ev => do
      let second ← ev.expr right
      first.binary op second) (Value.Obeys π) :=
    .bind (.expr hright) fun second _ => .ofExcept fun _ => Value.obeys_binary
  cases op with
  | and =>
    exact .ite (fun _ => .bind (.test hright) fun _ _ => .pure trivial) fun _ => .pure trivial
  | or =>
    exact .ite (fun _ => .pure trivial) fun _ => .bind (.test hright) fun _ _ => .pure trivial
  | nullCoalesce =>
    cases first with
    | nil => exact .expr hright
    | _ => exact .pure hfirst
  | pipe =>
    exact flow_pipe hfirst (h.home rfl) hcode.2 hright hparts fun v hv => h.back v hv trivial
  | shiftRight =>
    cases first with
    | stream console =>
      cases console with
      | input => exact .bind (flow_readInto (h.home rfl) right hparts) fun _ _ => .pure trivial
      | output => exact other
    | _ => exact other
  | shiftLeft =>
    cases first with
    | stream console =>
      cases console with
      | input => exact other
      | output => exact .bind (.expr hright) fun _ _ => .bind (.write _) fun _ _ => .pure trivial
    | channel id =>
      exact .bind (.expr hright) fun _ hv => .bind (.send id hv hfirst) fun _ _ => .pure hfirst
    | _ => exact other
  | _ => exact other

theorem flow_entries {found : Dict Value} (hfound : Dict.Obeys π found)
    {pairs : List (Expr × Expr)}
    (h : ∀ pair ∈ pairs, R.job (.expr pair.1) ∧ R.job (.expr pair.2)) :
    Flow π R (fun ev => ev.entries found pairs) (Dict.Obeys π) := by
  induction pairs generalizing found with
  | nil => exact .pure hfound
  | cons pair rest ih =>
    rw [List.forall_mem_cons] at h
    exact .bind (.expr h.1.1) fun key _ => .bind (.expr h.1.2) fun _ hv =>
      ih (hfound.insert hv key.display) h.2

/-- An expression that is covered flows, one case for each kind of expression. -/
theorem flow_evaluate {e : Expr} (h : R.Covers (.expr e)) :
    Flow π R (fun ev => ev.evaluate e) (Value.Obeys π) := by
  have hcode : e.passes π.code := h.obeys
  have hpart {e' : Expr} (he : .expr e' ∈ e.parts) :
      Flow π R (fun ev => ev.expr e') (Value.Obeys π) := .expr (h.parts _ (.single he))
  have hblock {body : Block} (he : .block body ∈ e.parts) :
      Flow π R (fun ev => ev.block body) (Value.Obeys π) := .block (h.parts _ (.single he))
  have hexprs {l : List Expr} (he : ∀ e' ∈ l, .expr e' ∈ e.parts) :
      Flow π R (fun ev => ev.exprs l) fun values => ∀ v ∈ values, v.Obeys π :=
    .exprs fun e' hmem => h.parts _ (.single (he e' hmem))
  -- what an assignment may start are the parts of its target
  have htarget {target : Expr} (he : .expr target ∈ e.parts) (part : Job)
      (hp : TransGen Job.HasPart (.expr target) part) : R.job part := h.parts part (.head he hp)
  cases e with
  | int n => exact .pure trivial
  | float x => exact .pure trivial
  | text s => exact .pure trivial
  | bool b => exact .pure trivial
  | nil => exact .pure trivial
  | name word =>
    refine .task (fun t t' halike => ?_) fun t ht => .bind .store fun s hs =>
      .pure (obeys_lookup hcode ht hs)
    simp only [lookup, halike.get?_eq (h.home rfl)]
  | this =>
    refine .scope (fun t t' halike => ?_) fun sc hsc => .pure (Value.obeys_getD hsc.this trivial)
    rw [halike.this]
  | call callee arguments => exact flow_call h
  | create className arguments =>
    refine .bind (hexprs (by simp [Expr.parts])) fun args hargs => ?_
    exact .bind (flow_create (h.builds className rfl) hargs
      fun v hv => h.back v (hargs v hv) trivial) fun _ _ => .pure trivial
  | member object property access =>
    exact .bind (hpart (by simp [Expr.parts])) fun v hv =>
      flow_readMember hv property fun className => h.builds className trivial
  | index target key =>
    cases key with
    | none => exact .fail _
    | some key =>
      exact .bind (hpart (by simp [Expr.parts])) fun container hcontainer =>
        .bind (hpart (by simp [Expr.parts])) fun key _ => .bind .store fun s hs =>
          .ofExcept fun _ => Value.obeys_element hs.fields hcontainer
  | assign target value =>
    refine .bind (hpart (by simp [Expr.parts])) fun v hv => ?_
    exact .bind (flow_assign (h.home rfl) target hv (htarget (by simp [Expr.parts])))
      fun _ _ => .pure hv
  | choice condition consequence alternative =>
    refine .bind (hpart (by simp [Expr.parts])) fun v hv => ?_
    refine .ite (fun _ => ?_) fun _ => hblock (by simp [Expr.parts])
    cases consequence with
    | some body => exact hblock (by simp [Expr.parts])
    | none => exact .pure hv
  | binary left op right => exact flow_binary h
  | unary op operand =>
    exact .bind (hpart (by simp [Expr.parts])) fun _ _ => .ofExcept fun _ => Value.obeys_unary
  | step operand op =>
    refine .bind (hpart (by simp [Expr.parts])) fun current hcurrent => ?_
    refine .bind (P := Value.Obeys π) (.ofExcept fun _ => Value.obeys_stepped) fun next hnext => ?_
    exact .bind (flow_assign (h.home rfl) operand hnext (htarget (by simp [Expr.parts])))
      fun _ _ => .pure hcurrent
  | array items =>
    exact .bind (hexprs (by simp [Expr.parts])) fun _ hitems => .pure (Value.obeys_array.mpr hitems)
  | map pairs =>
    refine .bind (flow_entries Dict.obeys_nil fun pair hpair => ?_) fun _ hentries =>
      .pure (Value.obeys_map.mpr hentries)
    have hmem (job : Job) (hjob : job ∈ [Job.expr pair.1, Job.expr pair.2]) :
        R.job job := h.parts job (.single (List.mem_flatMap.mpr ⟨pair, hpair, hjob⟩))
    exact ⟨hmem _ (by simp), hmem _ (by simp)⟩
  | block body => exact hblock (by simp [Expr.parts])
  | function decl =>
    simp only [Expr.passes, Bool.and_eq_true] at hcode
    exact .pure hcode.2
  | isset operands =>
    refine .bind (flow_allExist (h.home rfl) fun e' he' => htarget ?_) fun _ _ => .pure trivial
    simp [Expr.parts, he']
  | empty operand =>
    have hexists := flow_existing? (h.home rfl) operand (htarget (by simp [Expr.parts]))
    have hoperand : Flow π R (fun ev => some <$> ev.expr operand) fun _ => True :=
      .map some (hpart (by simp [Expr.parts])) fun _ _ => trivial
    exact .ite (fun _ => .bind hexists fun _ _ => .pure trivial) fun _ =>
      .bind hoperand fun _ _ => .pure trivial

/-! ## Statements -/

theorem flow_declareFunction {decl : FunctionDecl} (hdecl : decl.passes π.code) :
    Flow π R (fun _ => declareFunction decl) fun _ => True :=
  .modifyStore (fun _ => .function decl) fun _ hs => hs.declareFunction hdecl

/-- The policy decides which classes may be declared. -/
theorem flow_classDef {decl : ClassDecl} (h : (Stmt.classDef decl).passes π.code) :
    Flow π R (fun _ => declareClass decl) fun _ => True := by
  simp only [Stmt.passes, Bool.and_eq_true] at h
  exact .declareClass h.1 h.2

theorem flow_declareAll {body : Block} (h : ∀ stmt ∈ body, stmt.passes π.code) :
    Flow π R (fun _ => declareAll body) fun _ => True := by
  induction body with
  | nil => exact .pure trivial
  | cons stmt rest ih =>
    rw [List.forall_mem_cons] at h
    cases stmt with
    | classDef decl => exact .bind (flow_classDef h.1) fun _ _ => ih h.2
    | functionDef decl =>
      have hdecl := h.1
      simp only [Stmt.passes, Bool.and_eq_true] at hdecl
      exact .bind (flow_declareFunction hdecl.2) fun _ _ => ih h.2
    | _ => exact ih h.2

theorem flow_round {body : Block} (h : R.job (.block body)) :
    Flow π R (fun ev => ev.round body) fun _ => True := by
  refine .bind (.capture (.block h)) fun outcome houtcome => ?_
  match outcome with
  | .ok _ | .error .continued => exact .pure trivial
  | .error .broken => exact .pure trivial
  | .error (.returned _) | .error (.thrown _) | .error (.failed _) => exact .signal houtcome

theorem flow_visit (home : R.atHome) (key : Option String) (value : String) {body : Block}
    (h : R.job (.block body)) {entry : Value × Value} (hkey : entry.1.Obeys π)
    (hvalue : entry.2.Obeys π) :
    Flow π R (fun ev => ev.visit key value body entry) fun _ => True := by
  have rest : Flow π R (fun ev => do
      Script.assignVariable value entry.2
      ev.round body) fun _ => True :=
    .bind (.assign value home hvalue) fun _ _ => flow_round h
  cases key with
  | none => exact rest
  | some key => exact .bind (.assign key home hkey) fun _ _ => rest

/-- A loop assigns its variables, so that it needs to be at home. -/
theorem flow_forEach (home : R.atHome) {source : Value} (hsource : source.Obeys π)
    (key : Option String) (value : String) {body : Block} (h : R.job (.block body)) :
    Flow π R (fun ev => ev.forEach source key value body) fun _ => True := by
  have hkeyed {entries : Dict Value} (hentries : Dict.Obeys π entries) :
      Flow π R (fun ev => Script.forWhile (ev.visit key value body) (keyed entries))
        fun _ => True := by
    refine .forWhile fun entry hentry => ?_
    obtain ⟨e, he, rfl⟩ := List.mem_map.mp hentry
    exact flow_visit home key value h trivial (hentries e he)
  cases source with
  | channel id =>
    refine .iterate hsource (fun i => ?_) 0
    refine .bind (.request (r := .take id) hsource trivial) fun item hitem => ?_
    cases item with
    | none => exact .pure trivial
    | some item =>
      exact .bind (flow_visit home key value h trivial (hitem item rfl)) fun _ _ =>
        .ite (fun _ => .pure trivial) fun _ => .pure trivial
  | array items =>
    refine .forWhile fun entry hentry => ?_
    obtain ⟨⟨v, i⟩, hv, rfl⟩ := List.mem_map.mp hentry
    have hmem := List.mem_of_getElem? (List.mem_zipIdx_iff_getElem?.mp hv)
    exact flow_visit home key value h trivial (Value.obeys_array.mp hsource v hmem)
  | map entries => exact hkeyed (Value.obeys_map.mp hsource)
  | object ref => exact .bind .store fun s hs => hkeyed (hs.fields ref)
  | nil => exact .pure trivial
  | _ => exact .fail _

/-- The case that is taken is one of those listed. -/
theorem flow_selectCase (subject : Value) {cases : List (Expr × Block)}
    (h : ∀ case ∈ cases, R.job (.expr case.1)) :
    Flow π R (fun ev => ev.selectCase subject cases) fun found =>
      ∀ body ∈ found, ∃ e, (e, body) ∈ cases := by
  induction cases with
  | nil => exact .pure (by simp)
  | cons case rest ih =>
    rw [List.forall_mem_cons] at h
    refine .bind (.expr h.1) fun v _ => .ite (fun _ => .pure ?_) fun _ =>
      .weaken (ih h.2) fun found hfound body hbody => ?_
    · rintro _ ⟨⟩
      exact ⟨case.1, by simp⟩
    · obtain ⟨e, he⟩ := hfound body hbody
      exact ⟨e, by simp [he]⟩

theorem flow_runCase {body : Block} (h : R.job (.block body)) :
    Flow π R (fun ev => ev.runCase body) (Value.Obeys π) := by
  refine .bind (.capture (.block h)) fun outcome houtcome => ?_
  match outcome with
  | .error .broken => exact .pure trivial
  | .ok _ | .error (.returned _) | .error .continued | .error (.thrown _) | .error (.failed _) =>
    exact .release houtcome

/-- A caught value obeys the policy, since all signals do. -/
theorem flow_guarded (home : R.atHome) {body handler : Block} (name : String)
    (h : R.job (.block body)) (hhandler : R.job (.block handler)) :
    Flow π R (fun ev => ev.guarded body name handler) (Value.Obeys π) := by
  refine .bind (.capture (.block h)) fun outcome houtcome => ?_
  cases outcome with
  | ok v => exact .pure houtcome
  | error x =>
    cases x with
    | thrown v => exact .bind (.bindCaught name home houtcome.1) fun _ _ => .block hhandler
    | failed fault => exact .bind (.bindCaught name home trivial) fun _ _ => .block hhandler
    | _ => exact .signal houtcome

/-- A statement that is covered flows, one case for each kind of statement. -/
theorem flow_statement {stmt : Stmt} (hcode : stmt.passes π.code) (hhome : stmt.isOpen → R.atHome)
    (hparts : ∀ part ∈ stmt.parts, R.job part) :
    Flow π R (fun ev => ev.statement stmt) (Value.Obeys π) := by
  have hcheck := Stmt.check_of_passes hcode
  have hpart {e : Expr} (he : .expr e ∈ stmt.parts) :
      Flow π R (fun ev => ev.expr e) (Value.Obeys π) := .expr (hparts _ he)
  cases stmt with
  | declare typeName name value =>
    have bound {v : Value} (hv : v.Obeys π) : Flow π R (fun _ => do
        Script.declareVariable name (Tag.ofName typeName) v
        return v) (Value.Obeys π) :=
      .bind (.declare name _ (hhome rfl) hv) fun _ _ => .pure hv
    cases value with
    | some e => exact .bind (hpart (by simp [Stmt.parts])) fun _ hv => bound hv
    | none => exact bound (Value.obeys_zero _)
  | classDef decl => exact .bind (flow_classDef hcode) fun _ _ => .pure trivial
  | functionDef decl =>
    simp only [Stmt.passes, Bool.and_eq_true] at hcode
    exact .bind (flow_declareFunction hcode.2) fun _ _ => .pure trivial
  | forEach iterable key value body =>
    exact .bind (hpart (by simp [Stmt.parts])) fun source hsource =>
      .bind (flow_forEach (hhome rfl) hsource key value (hparts _ (by simp [Stmt.parts])))
        fun _ _ => .pure trivial
  | whileLoop condition body =>
    refine .bind (.repeatWhile (π.unbounded_of_stmt hcheck rfl) ?_) fun _ _ => .pure trivial
    exact .bind (.test (hparts _ (by simp [Stmt.parts]))) fun _ _ =>
      .ite (fun _ => flow_round (hparts _ (by simp [Stmt.parts]))) fun _ => .pure trivial
  | doWhile body condition =>
    refine .bind (.repeatWhile (π.unbounded_of_stmt hcheck rfl) ?_) fun _ _ => .pure trivial
    exact .bind (flow_round (hparts _ (by simp [Stmt.parts]))) fun _ _ =>
      .ite (fun _ => .test (hparts _ (by simp [Stmt.parts]))) fun _ => .pure trivial
  | tryCatch body name handler =>
    exact flow_guarded (hhome rfl) name (hparts _ (by simp [Stmt.parts]))
      (hparts _ (by simp [Stmt.parts]))
  | branch condition consequence alternative =>
    refine .bind (.test (hparts _ (by simp [Stmt.parts]))) fun _ _ =>
      .ite (fun _ => .block (hparts _ (by simp [Stmt.parts]))) fun _ => ?_
    cases alternative with
    | some body => exact .block (hparts _ (by simp [Stmt.parts]))
    | none => exact .pure trivial
  | select subject cases fallback =>
    have hcase (case : Expr × Block) (hmem : case ∈ cases) (job : Job)
        (hjob : job ∈ [Job.expr case.1, Job.block case.2]) : R.job job := by
      refine hparts job (List.mem_cons_of_mem _ (List.mem_append_left _ ?_))
      exact List.mem_flatMap.mpr ⟨case, hmem, hjob⟩
    refine .bind (hpart (by simp [Stmt.parts])) fun v _ =>
      .bind (flow_selectCase v fun case hmem => hcase case hmem _ (by simp)) fun found hfound => ?_
    cases hselected : found.or fallback with
    | none => exact .pure trivial
    | some body =>
      refine flow_runCase ?_
      obtain hbody | ⟨-, hbody⟩ := Option.or_eq_some_iff.mp hselected
      · obtain ⟨e, he⟩ := hfound body hbody
        exact hcase _ he _ (by simp)
      · exact hparts _ (by simp [Stmt.parts, hbody])
  | raise e =>
    exact .bind (hpart (by simp [Stmt.parts])) fun _ hv =>
      .signal ⟨hv, by simp [Signal.isJump]⟩
  | returns value =>
    cases value with
    | none => exact .signal ⟨trivial, fun _ => hhome rfl⟩
    | some e =>
      exact .bind (hpart (by simp [Stmt.parts])) fun _ hv => .signal ⟨hv, fun _ => hhome rfl⟩
  | breaks => exact .signal ⟨trivial, fun _ => hhome rfl⟩
  | continues => exact .signal ⟨trivial, fun _ => hhome rfl⟩
  | load path =>
    exact .bind (.load path (hhome rfl) (π.unbounded_of_stmt hcheck rfl)) fun _ _ => .pure trivial
  | package name => exact .pure trivial
  | echo e =>
    exact .bind (hpart (by simp [Stmt.parts])) fun _ _ => .bind (.write _) fun _ _ => .pure trivial
  | expr e => exact hpart (by simp [Stmt.parts])

structure CoversBlock (R : Reach π) (body : Block) : Prop where
  code : ∀ stmt ∈ body, stmt.passes π.code
  home : ∀ stmt ∈ body, stmt.isOpen → R.atHome
  parts : ∀ stmt ∈ body, ∀ part ∈ stmt.parts, R.job part

/-- A block is covered if its statements pass and their parts are within reach. -/
theorem CoversBlock.of_parts {body : Block} (hcode : Stmt.allPass π.code body)
    (hhome : body.any Stmt.isOpen → R.atHome)
    (hparts : ∀ part ∈ body.flatMap Stmt.parts, R.job part) : CoversBlock R body where
  code := Stmt.allPass_eq_true.mp hcode
  home stmt hstmt hopen := hhome (List.any_eq_true.mpr ⟨stmt, hstmt, hopen⟩)
  parts stmt hstmt part hpart := hparts part (List.mem_flatMap.mpr ⟨stmt, hstmt, hpart⟩)

theorem CoversBlock.head {stmt : Stmt} {rest : Block} (h : CoversBlock R (stmt :: rest)) :
    Flow π R (fun ev => ev.statement stmt) (Value.Obeys π) :=
  flow_statement (h.code stmt (by simp)) (h.home stmt (by simp)) (h.parts stmt (by simp))

theorem CoversBlock.tail {stmt : Stmt} {rest : Block} (h : CoversBlock R (stmt :: rest)) :
    CoversBlock R rest where
  code stmt' hmem := h.code stmt' (by simp [hmem])
  home stmt' hmem := h.home stmt' (by simp [hmem])
  parts stmt' hmem := h.parts stmt' (by simp [hmem])

/-- The statements of a block flow one after the other. -/
theorem flow_statements {body : Block} (h : CoversBlock R body) {last : Value}
    (hlast : last.Obeys π) : Flow π R (fun ev => ev.statements last body) (Value.Obeys π) := by
  induction body generalizing last with
  | nil => exact .pure hlast
  | cons stmt rest ih => exact .bind h.head fun _ hv => ih h.tail hv

theorem flow_topLevel {body : Block} (h : CoversBlock R body) {last : Value}
    (hlast : last.Obeys π) :
    Flow π R (fun ev => ev.topLevel last body) fun result => result.1.Obeys π := by
  induction body generalizing last with
  | nil => exact .pure hlast
  | cons stmt rest ih =>
    refine .ite (fun _ => ih h.tail hlast) fun _ => ?_
    refine .bind (.capture h.head) fun outcome houtcome => ?_
    match outcome with
    | .ok v => exact ih h.tail houtcome
    | .error (.returned v) => exact .pure houtcome.1
    | .error .broken | .error .continued => exact ih h.tail hlast
    | .error (.thrown _) | .error (.failed _) => exact .fail _

theorem flow_script {body : Block} (h : CoversBlock R body) :
    Flow π R (fun ev => ev.script body) fun result => result.1.Obeys π :=
  .bind (flow_declareAll h.code) fun _ _ => flow_topLevel h trivial

/-- Every job that is covered is carried out by a rule under the policy. -/
theorem flow_step {job : Job} (h : R.Covers job) :
    Flow π R (fun ev => ev.step job) (Value.Obeys π) := by
  cases job with
  | expr e => exact flow_evaluate h
  | block body =>
    have hcovers : CoversBlock R body :=
      .of_parts h.obeys h.home fun part hpart => h.parts part (.single hpart)
    exact flow_statements hcovers trivial
  | call callee args =>
    exact flow_callValue h.obeys.1 h.home h.obeys.2 fun v hv => h.back v (h.obeys.2 v hv) hv
  | load place body =>
    have hcovers : CoversBlock R body :=
      .of_parts h.obeys (fun _ => h.home rfl) fun part hpart => h.parts part (.single hpart)
    exact .bind (.start place (h.starts rfl)) fun _ _ => .bind (flow_script hcovers)
      fun _ hv => .pure hv

/-- A program needs in addition what its main class needs. -/
theorem flow_program {p : Program} (h : R.Covers (.block p.statements)) (hmain : R.builds "Main") :
    Flow π R (fun ev => ev.program p) (Value.Obeys π) := by
  have hcovers : CoversBlock R p.statements :=
    .of_parts h.obeys h.home fun part hp => h.parts part (.single hp)
  refine .bind (flow_script hcovers) fun result hresult => .ite (fun _ => .pure hresult) fun _ => ?_
  refine .bind .store fun s hs => ?_
  cases hentry : (s.classes.findMethod? "Main" "main").filter (·.isInit) with
  | none => exact .pure hresult
  | some entry =>
    have hpasses := passes_of_findMethod? hs (Option.filter_eq_some_iff.mp hentry).1
    exact .settle (.bind (flow_create hmain (by simp) (by simp)) fun ref _ =>
      flow_callMethod hpasses ref (by simp) (by simp))

end Evaluator

end RouteScript
