import RouteScript.Proofs.Session.MirrorServices

/-!
# Expressions and statements with journals and with bags

Code that does not name the global with the session does the same where sessions keep journals as
where they hold bags, at every depth of calls.
-/

namespace RouteScript

/-- Discreet code never names the global of the session. -/
theorem Expr.name_ne {word : String} (h : (Expr.name word).passes discreet) :
    word ≠ Service.sessionGlobal := by
  simpa [Expr.passes, discreet] using h

namespace Evaluator

variable {W : Realm} {own : Option ObjectRef} {args : List Value} {ev ev' : Evaluator}
  (E : ev.Mirrors own ev')

include E

/-! ## Calls -/

/-- A method of a session is where the two sides differ: one writes a journal, the other a bag. -/
theorem mirrors_callMethod {method : FunctionDecl} (hmethod : method.IsDiscreet)
    {receiver : ObjectRef} (hreceiver : W.Holds receiver) (hargs : ∀ v ∈ args, v.Within W) :
    Script.Mirrors own Value.Within W (ev.callMethod method receiver args)
      (ev'.callMethod method receiver args) := by
  refine .ite (fun _ => E.invokeFunction hmethod hargs ?_) fun _ => .look fun s hs => ?_
  · rintro _ ⟨⟩
    exact hreceiver
  · rw [Store.classes_bags]
    cases s.classes.hostedAncestor? receiver.className with
    | none => exact .fail _
    | some className =>
      have hstands := Service.standsFor_get? className
      simp only [hs.services, Store.services_bags]
      generalize Dict.get? className Service.journaled = service at hstands ⊢
      generalize Dict.get? className Service.registry = service' at hstands ⊢
      cases hstands with
      | none => exact .fail _
      | some h => exact Service.mirrors_call E h className hreceiver hargs

theorem mirrors_initialValue {property : PropertyDecl}
    (h : ∀ e, property.initial = some e → e.passes discreet) :
    Script.Mirrors own Value.Within W (ev.initialValue property) (ev'.initialValue property) := by
  unfold initialValue
  cases hinitial : property.initial with
  | some e => exact E.expr (h e hinitial)
  | none =>
    cases property.typeName with
    | some typeName => exact .pure (Value.within_zero _)
    | none => exact .pure trivial

theorem mirrors_fillProperties {ref : ObjectRef} (href : W.Holds ref)
    {properties : List PropertyDecl}
    (h : ∀ property ∈ properties, ∀ e, property.initial = some e → e.passes discreet) :
    Script.Mirrors own Anything W (ev.fillProperties ref properties)
      (ev'.fillProperties ref properties) := by
  induction properties generalizing W with
  | nil => exact .pure trivial
  | cons property rest ih =>
    rw [List.forall_mem_cons] at h
    refine .bind (mirrors_initialValue E h.1) fun W hW v hv => ?_
    replace href := href.mono hW
    exact .bind (.setField href _ hv) fun W hW _ _ => ih (href.mono hW) h.2

/-- Making an object does the same on both sides, its defaults included. -/
theorem mirrors_newObject (className : String) :
    Script.Mirrors own Realm.Holds W (ev.newObject className) (ev'.newObject className) := by
  refine .store (fun _ _ => rfl) fun s hs => .ite (fun _ => ?_) fun _ => .fail _
  refine .bind (.newObject className Dict.within_nil) fun W _ ref href =>
    .bind (mirrors_fillProperties E href ?_) fun W hW _ _ => .pure (href.mono hW)
  intro property hproperty e he
  obtain ⟨entry, hentry, hproperty⟩ := List.mem_flatMap.mp hproperty
  exact hs.initial (List.mem_reverse.mp hentry) hproperty he

/-- A session that a script makes is an object like any other. -/
theorem mirrors_create (className : String) (hargs : ∀ v ∈ args, v.Within W) :
    Script.Mirrors own Realm.Holds W (ev.create className args) (ev'.create className args) := by
  refine .bind (mirrors_newObject E className) fun W hW ref href => .look fun s hs => ?_
  replace hargs := Value.all_mono hW hargs
  rw [Store.classes_bags]
  cases hconstructor : s.classes.findMethod? className "constructor" with
  | some constructor =>
    exact .bind (mirrors_callMethod E (hs.method hconstructor) href hargs) fun W hW _ _ =>
      .pure (href.mono hW)
  | none =>
    cases s.classes.hostedAncestor? className with
    | none => exact .pure href
    | some name =>
      have hstands := Service.standsFor_get? name
      simp only [Option.bind_some, hs.services, Store.services_bags]
      generalize Dict.get? name Service.journaled = service at hstands ⊢
      generalize Dict.get? name Service.registry = service' at hstands ⊢
      cases hstands with
      | none => exact .pure href
      | some h =>
        exact .bind (Service.mirrors_call E h name href hargs) fun W hW _ _ => .pure (href.mono hW)

theorem mirrors_callValue {callee : Value} (hcallee : callee.Within W)
    (hargs : ∀ v ∈ args, v.Within W) :
    Script.Mirrors own Value.Within W (ev.callValue callee args) (ev'.callValue callee args) := by
  cases callee with
  | function decl => exact .scope fun sc hsc => E.invokeFunction hcallee hargs hsc.this
  | method decl receiver => exact mirrors_callMethod E hcallee.1 hcallee.2 hargs
  | builtin b => exact b.mirrors_call hargs
  | _ => exact .fail _

/-- A name other than that of the session stands for the same on both sides. -/
theorem mirrors_callNamed {word : String} (hword : word ≠ Service.sessionGlobal)
    (hargs : ∀ v ∈ args, v.Within W) :
    Script.Mirrors own Value.Within W (ev.callNamed word args) (ev'.callNamed word args) := by
  refine .store (fun _ _ => rfl) fun s hs => ?_
  cases hfunction : Dict.get? word s.functions with
  | some decl =>
    exact E.invokeFunction (hs.functions _ (Dict.mem_of_get? hfunction)) hargs (by simp)
  | none =>
    cases Builtin.ofName? word with
    | some b => exact b.mirrors_call hargs
    | none =>
      refine .scope fun sc hsc => ?_
      cases hv : sc.get? word with
      | some v => exact mirrors_callValue E (hsc.get? hword v hv) hargs
      | none => exact .fail _

theorem mirrors_callMember {receiver : Value} (hreceiver : receiver.Within W) (property : String)
    (hargs : ∀ v ∈ args, v.Within W) :
    Script.Mirrors own Value.Within W (ev.callMember receiver property args)
      (ev'.callMember receiver property args) := by
  cases receiver with
  | object ref =>
    refine .store (fun s _ => ?_) fun s hs => ?_
    · simp only [Store.fields_bags_of_holds s hreceiver, Store.classes_bags]
    cases hfield : (Dict.get? property (s.fields ref)).filter Value.isCallable with
    | some v =>
      have hv := (hs.fields ref hreceiver).get? v (Option.filter_eq_some_iff.mp hfield).1
      exact mirrors_callValue E hv hargs
    | none =>
      dsimp only
      cases hdecl : s.classes.resolve? ref.className property with
      | some decl => exact mirrors_callMethod E (hs.resolved hdecl) hreceiver hargs
      | none => exact .fail _
  | classRef className =>
    refine .store (fun _ _ => rfl) fun s hs => ?_
    cases hdecl : s.classes.resolve? className property with
    | some decl =>
      exact .bind (mirrors_newObject E className) fun W hW ref href =>
        mirrors_callMethod E (hs.resolved hdecl) href (Value.all_mono hW hargs)
    | none => exact .fail _
  | map entries =>
    simp only [callMember]
    cases hfield : (Dict.get? property entries).filter Value.isCallable with
    | some v =>
      have hv := (Value.within_map.mp hreceiver).get? v (Option.filter_eq_some_iff.mp hfield).1
      exact mirrors_callValue E hv hargs
    | none => exact .fail _
  | _ => exact .fail _

omit E in
/-- A new task works for the session of the task that starts it. -/
theorem mirrors_spawnExpr {arguments : List Expr} (h : ∀ e ∈ arguments, e.passes discreet) :
    Script.Discreet own Value.Within W (spawnExpr arguments) := by
  match arguments with
  | [e] => exact .spawn (show Work.Within W (.evaluate e) from h e (by simp))
  | [] | _ :: _ :: _ => exact .fail _

/-- A discreet call does the same on both sides. -/
theorem mirrors_call {callee : Expr} {arguments : List Expr}
    (h : (Expr.call callee arguments).passes discreet) :
    Script.Mirrors own Value.Within W (ev.call callee arguments) (ev'.call callee arguments) := by
  simp only [Expr.passes, Bool.and_eq_true] at h
  have hcode := Expr.allPass_eq_true.mp h.2
  have other {e : Expr} (he : e.passes discreet) : Script.Mirrors own Value.Within W
      (do
        let callee ← ev.expr e
        let args ← ev.exprs arguments
        ev.callValue callee args)
      (do
        let callee ← ev'.expr e
        let args ← ev'.exprs arguments
        ev'.callValue callee args) :=
    .bind (E.expr he) fun _ _ _ hcallee => .bind (E.exprs hcode) fun _ hW _ hargs =>
      mirrors_callValue E (hcallee.mono hW) hargs
  cases callee with
  | name word =>
    refine .scope fun sc _ => .ite (fun _ => mirrors_spawnExpr hcode) fun _ => ?_
    exact .bind (E.exprs hcode) fun _ _ _ hargs =>
      mirrors_callNamed E (Expr.name_ne h.1.2) hargs
  | member object property access =>
    have hobject : object.passes discreet := by
      have := h.1.2
      simp only [Expr.passes, Bool.and_eq_true] at this
      exact this.2
    exact .bind (E.expr hobject) fun _ _ _ hreceiver => .bind (E.exprs hcode) fun _ hW _ hargs =>
      mirrors_callMember E (hreceiver.mono hW) property hargs
  | _ => exact other h.1.2

theorem mirrors_pipe {input : Value} (hinput : input.Within W) {target : Expr}
    (h : target.passes discreet) :
    Script.Mirrors own Value.Within W (ev.pipe input target) (ev'.pipe input target) := by
  have hall {W' : Realm} (hW : W <+: W') {args : List Value} (hargs : ∀ v ∈ args, v.Within W') :
      ∀ v ∈ input :: args, v.Within W' := List.forall_mem_cons.mpr ⟨hinput.mono hW, hargs⟩
  have other {W' : Realm} (hW : W <+: W') {e : Expr} (he : e.passes discreet) {args : List Value}
      (hargs : ∀ v ∈ args, v.Within W') : Script.Mirrors own Value.Within W'
      (do
        let callee ← ev.expr e
        ev.callValue callee (input :: args))
      (do
        let callee ← ev'.expr e
        ev'.callValue callee (input :: args)) :=
    .bind (E.expr he) fun _ hW' _ hcallee =>
      mirrors_callValue E hcallee (hall (hW.trans hW') (Value.all_mono hW' hargs))
  have hsame := List.prefix_refl W
  cases target with
  | name word => exact mirrors_callNamed E (Expr.name_ne h) (hall hsame (by simp))
  | call callee arguments =>
    simp only [Expr.passes, Bool.and_eq_true] at h
    refine .bind (E.exprs (Expr.allPass_eq_true.mp h.2)) fun W hW args hargs => ?_
    cases callee with
    | name word => exact mirrors_callNamed E (Expr.name_ne h.1.2) (hall hW hargs)
    | _ => exact other hW h.1.2 hargs
  | _ => exact other hsame h (by simp)

/-! ## Targets -/

theorem mirrors_key {key : Option Expr} (h : ∀ e ∈ key, e.passes discreet) :
    Script.Mirrors own Anything W (key.mapM ev.expr) (key.mapM ev'.expr) := by
  cases key with
  | none => exact .pure trivial
  | some e => exact .map some (E.expr (h e rfl)) fun _ _ _ => trivial

omit E in
theorem passes_index {target : Expr} {key : Option Expr}
    (h : (Expr.index target key).passes discreet) :
    target.passes discreet ∧ ∀ e ∈ key, e.passes discreet := by
  cases key with
  | none =>
    simp only [Expr.passes, Bool.and_eq_true] at h
    exact ⟨h.2, by simp⟩
  | some key =>
    simp only [Expr.passes, Bool.and_eq_true] at h
    exact ⟨h.1.2, by simpa using h.2⟩

omit E in
theorem passes_member {object : Expr} {property : String} {access : Access}
    (h : (Expr.member object property access).passes discreet) : object.passes discreet := by
  simp only [Expr.passes, Bool.and_eq_true] at h
  exact h.2

/-- Targets of discreet code are variables and objects other than the session. -/
theorem mirrors_assign {W : Realm} {target : Expr} (h : target.passes discreet) {value : Value}
    (hvalue : value.Within W) :
    Script.Mirrors own Anything W (ev.assign target value) (ev'.assign target value) := by
  match target with
  | .name word => exact .assignVariable (Expr.name_ne h) hvalue
  | .member object property access =>
    have hobject := passes_member h
    refine .bind (E.expr hobject) fun W hW v hv => ?_
    replace hvalue := hvalue.mono hW
    cases v with
    | object ref => exact .setField hv _ hvalue
    | map entries =>
      exact .ite (fun _ => .fail _) fun _ => mirrors_assign hobject
        (Value.within_map.mpr ((Value.within_map.mp hv).insert hvalue property))
    | nil =>
      refine .ite (fun _ => .fail _) fun _ => mirrors_assign hobject (Value.within_map.mpr ?_)
      simpa [Dict.Within] using hvalue
    | _ => exact .fail _
  | .index target key =>
    obtain ⟨htarget, hkeys⟩ := passes_index h
    cases target with
    | name word =>
      exact .bind (mirrors_key E hkeys) fun _ hW key _ =>
        .storeInVariable (Expr.name_ne htarget) key (hvalue.mono hW)
    | _ =>
      refine .bind (mirrors_key E hkeys) fun W hW key _ => ?_
      replace hvalue := hvalue.mono hW
      refine .bind (E.expr htarget) fun W hW container hcontainer => ?_
      replace hvalue := hvalue.mono hW
      refine .bind (P := Value.Placement.Within) (.ofExcept fun _ hplaced => ?_)
        fun W hW placed hplaced => ?_
      · exact Value.within_place (Value.within_prepared hcontainer key) hvalue hplaced
      · cases placed with
        | container changed => exact mirrors_assign htarget hplaced
        | field ref field => exact .setField hplaced _ (hvalue.mono hW)
  | .int _ | .float _ | .text _ | .bool _ | .nil | .this | .call .. | .create .. | .assign ..
  | .choice .. | .binary .. | .unary .. | .step .. | .array _ | .map _ | .block _ | .function _
  | .isset _ | .empty _ => exact .fail _

/-- What exists on one side exists on the other. -/
theorem mirrors_existing? {W : Realm} {target : Expr} (h : target.passes discreet) :
    Script.Mirrors own (fun W found => ∀ v ∈ found, v.Within W) W (ev.existing? target)
      (ev'.existing? target) := by
  match target with
  | .name word => exact .scope fun sc hsc => .pure (hsc.get? (Expr.name_ne h))
  | .this => exact .scope fun sc hsc => .pure hsc.this
  | .index target (some key) =>
    obtain ⟨htarget, hkey⟩ := passes_index h
    refine .bind (mirrors_existing? htarget) fun W hW found hfound => ?_
    cases found with
    | none => exact .pure (by simp)
    | some container =>
      refine .bind (E.expr (hkey key rfl)) fun W hW key _ => ?_
      have hcontainer := (hfound container rfl).mono hW
      refine .store (fun s _ => ?_) fun s hs =>
        .pure (Value.within_element? hs.fields hcontainer)
      rw [Value.element?_congr (fun _ => Store.fields_bags_of_holds s) hcontainer]
  | .member object property access =>
    refine .bind (mirrors_existing? (passes_member h)) fun W hW found hfound => ?_
    cases found with
    | none => exact .pure (by simp)
    | some container =>
      have hcontainer := hfound container rfl
      refine .store (fun s _ => ?_) fun s hs =>
        .pure (Value.within_member? hs.fields hcontainer property)
      rw [Value.member?_congr (fun _ => Store.fields_bags_of_holds s) hcontainer]
  | .index _ none | .int _ | .float _ | .text _ | .bool _ | .nil | .call .. | .create ..
  | .assign .. | .choice .. | .binary .. | .unary .. | .step .. | .array _ | .map _ | .block _
  | .function _ | .isset _ | .empty _ => exact .pure (by simp)

theorem mirrors_allExist {operands : List Expr} (h : ∀ e ∈ operands, e.passes discreet) :
    Script.Mirrors own Anything W (ev.allExist operands) (ev'.allExist operands) := by
  induction operands generalizing W with
  | nil => exact .pure trivial
  | cons e rest ih =>
    rw [List.forall_mem_cons] at h
    refine .bind (mirrors_existing? E h.1) fun W _ v _ => ?_
    cases v with
    | none => exact .pure trivial
    | some _ => exact ih h.2

/-! ## Expressions -/

omit E in
/-- What a discreet name stands for is within the realm. -/
theorem within_lookup {word : String} (hword : word ≠ Service.sessionGlobal) {t : Task}
    (ht : t.Within W) {s : Store} (hs : s.Within W) : (lookup word t s).Within W := by
  unfold lookup
  cases hget : t.scope.get? word with
  | some v => exact Scope.Within.get? ht hword v hget
  | none =>
    cases hfunction : Dict.get? word s.functions with
    | some decl => exact hs.functions _ (Dict.mem_of_get? hfunction)
    | none =>
      dsimp only
      split
      · trivial
      split
      · trivial
      split
      · trivial
      cases Builtin.ofName? word <;> trivial

theorem mirrors_readMember {object : Value} (hobject : object.Within W) (property : String) :
    Script.Mirrors own Value.Within W (ev.readMember object property)
      (ev'.readMember object property) := by
  cases object with
  | object ref =>
    refine .store (fun s _ => ?_) fun s hs => ?_
    · simp only [Store.fields_bags_of_holds s hobject, Store.classes_bags]
    split
    · exact .pure ((hs.fields ref hobject).get? _ ‹_›)
    · refine .pure ?_
      cases hdecl : s.classes.resolve? ref.className property with
      | none => trivial
      | some decl => exact ⟨hs.resolved hdecl, hobject⟩
  | classRef className =>
    refine .bind (mirrors_newObject E className) fun W _ receiver hreceiver =>
      .store (fun _ _ => rfl) fun s hs => ?_
    split
    · exact .pure ⟨hs.resolved ‹_›, hreceiver⟩
    · exact .fail _
  | map entries =>
    exact .pure (Value.within_getD (Value.within_map.mp hobject).get? trivial)
  | nil => exact .pure trivial
  | _ => exact .fail _

omit E in
theorem mirrors_readLine : Script.Discreet own Anything W readLine := by
  refine .store (fun _ _ => rfl) fun s _ => .ite (fun _ => .pure trivial) fun _ => ?_
  refine .bind (.modifyStore fun _ hs => ⟨rfl, { hs with }⟩) fun _ _ _ _ => ?_
  split
  · exact .fail _
  · exact .pure trivial

theorem mirrors_readInto {target : Expr} (h : target.passes discreet) :
    Script.Mirrors own Anything W (ev.readInto target) (ev'.readInto target) := by
  refine .bind mirrors_readLine fun W _ line _ => ?_
  cases target with
  | name word =>
    refine .scope fun sc _ => mirrors_assign E h ?_
    cases sc.tag? word with
    | none => trivial
    | some tag => exact Value.within_of_isScalar (Value.isScalar_coerce tag line)
  | _ => exact mirrors_assign E h trivial

theorem mirrors_binary {left right : Expr} {op : BinaryOp}
    (h : (Expr.binary left op right).passes discreet) :
    Script.Mirrors own Value.Within W (ev.binary left op right) (ev'.binary left op right) := by
  simp only [Expr.passes, Bool.and_eq_true] at h
  refine .bind (E.expr h.1.2) fun W _ first hfirst => ?_
  have hright {W : Realm} : Script.Mirrors own Value.Within W (ev.expr right) (ev'.expr right) :=
    E.expr h.2
  have htest : Script.Mirrors own Anything W (ev.test right) (ev'.test right) := E.test h.2
  have other : Script.Mirrors own Value.Within W
      (do
        let second ← ev.expr right
        first.binary op second)
      (do
        let second ← ev'.expr right
        first.binary op second) :=
    .bind hright fun _ _ _ _ => .ofExcept fun _ hv =>
      Value.within_of_isScalar (Value.isScalar_binary hv)
  cases op with
  | and =>
    exact .ite (fun _ => .bind htest fun _ _ _ _ => .pure trivial) fun _ => .pure trivial
  | or =>
    exact .ite (fun _ => .pure trivial) fun _ => .bind htest fun _ _ _ _ => .pure trivial
  | nullCoalesce =>
    cases first with
    | nil => exact hright
    | _ => exact .pure hfirst
  | pipe => exact mirrors_pipe E hfirst h.2
  | shiftRight =>
    cases first with
    | stream console =>
      cases console with
      | input => exact .bind (mirrors_readInto E h.2) fun _ _ _ _ => .pure trivial
      | output => exact other
    | _ => exact other
  | shiftLeft =>
    cases first with
    | stream console =>
      cases console with
      | input => exact other
      | output => exact .bind hright fun _ _ _ _ => .bind (.write _) fun _ _ _ _ => .pure trivial
    | channel id =>
      exact .bind hright fun _ _ _ hv => .bind (.send id hv) fun _ _ _ _ => .pure trivial
    | _ => exact other
  | _ => exact other

theorem mirrors_entries {found : Dict Value} (hfound : Dict.Within W found)
    {pairs : List (Expr × Expr)}
    (h : ∀ pair ∈ pairs, pair.1.passes discreet ∧ pair.2.passes discreet) :
    Script.Mirrors own Dict.Within W (ev.entries found pairs) (ev'.entries found pairs) := by
  induction pairs generalizing W found with
  | nil => exact .pure hfound
  | cons pair rest ih =>
    rw [List.forall_mem_cons] at h
    refine .bind (E.expr h.1.1) fun W hW key _ => ?_
    replace hfound := hfound.mono hW
    exact .bind (E.expr h.1.2) fun _ hW _ hv => ih ((hfound.mono hW).insert hv key.display) h.2

/-- A discreet expression does the same on both sides, one case for each kind of expression. -/
theorem mirrors_evaluate {e : Expr} (h : e.passes discreet) :
    Script.Mirrors own Value.Within W (ev.evaluate e) (ev'.evaluate e) := by
  have hpasses {e' : Expr} (he : .expr e' ∈ e.parts) : (Job.expr e').passes discreet :=
    Expr.passes_of_mem_parts h he
  have hpart {W : Realm} {e' : Expr} (he : .expr e' ∈ e.parts) :
      Script.Mirrors own Value.Within W (ev.expr e') (ev'.expr e') := E.expr (hpasses he)
  have hpass {body : Block} (hbody : .block body ∈ e.parts) : (Job.block body).passes discreet :=
    Expr.passes_of_mem_parts h hbody
  have hblock {W : Realm} {body : Block} (hbody : .block body ∈ e.parts) :
      Script.Mirrors own Value.Within W (ev.block body) (ev'.block body) := E.block (hpass hbody)
  have hexprs {l : List Expr} (he : ∀ e' ∈ l, .expr e' ∈ e.parts) :
      Script.Mirrors own (fun W values => ∀ v ∈ values, v.Within W) W (ev.exprs l) (ev'.exprs l) :=
    E.exprs fun e' hmem => hpasses (he e' hmem)
  cases e with
  | int n => exact .pure trivial
  | float x => exact .pure trivial
  | text s => exact .pure trivial
  | bool b => exact .pure trivial
  | nil => exact .pure trivial
  | name word =>
    exact .task fun t ht => .store (fun _ _ => rfl) fun s hs =>
      .pure (within_lookup (Expr.name_ne h) ht.within hs)
  | this => exact .scope fun sc hsc => .pure (Value.within_getD hsc.this trivial)
  | call callee arguments => exact mirrors_call E h
  | create className arguments =>
    exact .bind (hexprs (by simp [Expr.parts])) fun _ _ _ hargs =>
      .bind (mirrors_create E className hargs) fun _ _ _ href => .pure href
  | member object property access =>
    exact .bind (hpart (by simp [Expr.parts])) fun _ _ _ hv => mirrors_readMember E hv property
  | index target key =>
    cases key with
    | none => exact .fail _
    | some key =>
      refine .bind (hpart (by simp [Expr.parts])) fun W _ container hcontainer =>
        .bind (hpart (by simp [Expr.parts])) fun W hW key _ => ?_
      replace hcontainer := hcontainer.mono hW
      refine .store (fun s _ => ?_) fun s hs => .ofExcept fun _ =>
        Value.within_element hs.fields hcontainer
      rw [Value.element_congr (fun _ => Store.fields_bags_of_holds s) hcontainer]
  | assign target value =>
    refine .bind (hpart (by simp [Expr.parts])) fun W _ v hv => ?_
    have htarget : target.passes discreet := hpasses (by simp [Expr.parts])
    exact .bind (mirrors_assign E htarget hv) fun _ hW _ _ => .pure (hv.mono hW)
  | choice condition consequence alternative =>
    refine .bind (hpart (by simp [Expr.parts])) fun W _ v hv => ?_
    refine .ite (fun _ => ?_) fun _ => hblock (by simp [Expr.parts])
    cases consequence with
    | some body => exact hblock (by simp [Expr.parts])
    | none => exact .pure hv
  | binary left op right => exact mirrors_binary E h
  | unary op operand =>
    exact .bind (hpart (by simp [Expr.parts])) fun _ _ _ _ => .ofExcept fun _ hv =>
      Value.within_of_isScalar (Value.isScalar_unary hv)
  | step operand op =>
    refine .bind (hpart (by simp [Expr.parts])) fun W _ current hcurrent => ?_
    refine .bind (P := Value.Within) (.ofExcept fun _ hv =>
      Value.within_of_isScalar (Value.isScalar_stepped hv)) fun W hW next hnext => ?_
    have hoperand : operand.passes discreet := hpasses (by simp [Expr.parts])
    exact .bind (mirrors_assign E hoperand hnext) fun _ hW' _ _ =>
      .pure (hcurrent.mono (hW.trans hW'))
  | array items =>
    exact .bind (hexprs (by simp [Expr.parts])) fun _ _ _ hitems =>
      .pure (Value.within_array.mpr hitems)
  | map pairs =>
    refine .bind (mirrors_entries E Dict.within_nil fun pair hpair => ?_) fun _ _ _ hentries =>
      .pure (Value.within_map.mpr hentries)
    have hmem (e' : Expr) (he : .expr e' ∈ [Job.expr pair.1, Job.expr pair.2]) :
        e'.passes discreet := hpasses (List.mem_flatMap.mpr ⟨pair, hpair, he⟩)
    exact ⟨hmem pair.1 (by simp), hmem pair.2 (by simp)⟩
  | block body => exact hblock (by simp [Expr.parts])
  | function decl => exact .pure (FunctionDecl.isDiscreet_of_expr h)
  | isset operands =>
    refine .bind (mirrors_allExist E fun e' he' => ?_) fun _ _ _ _ => .pure trivial
    exact hpasses (by simp [Expr.parts, he'])
  | empty operand =>
    have hoperand : operand.passes discreet := hpasses (by simp [Expr.parts])
    have hvalue : Script.Mirrors own Anything W (some <$> ev.expr operand)
        (some <$> ev'.expr operand) :=
      .map some (E.expr hoperand) fun _ _ _ => trivial
    exact .ite (fun _ => .bind (mirrors_existing? E hoperand) fun _ _ _ _ => .pure trivial)
      fun _ => .bind hvalue fun _ _ _ _ => .pure trivial

/-! ## Statements -/

omit E in
theorem mirrors_declareFunction {decl : FunctionDecl} (hdecl : decl.IsDiscreet) :
    Script.Discreet own Anything W (declareFunction decl) :=
  .modifyStore fun _ hs => ⟨rfl, hs.declareFunction hdecl⟩

omit E in
theorem mirrors_declareAll {body : Block} (h : ∀ stmt ∈ body, stmt.passes discreet) :
    Script.Discreet own Anything W (declareAll body) := by
  induction body generalizing W with
  | nil => exact .pure trivial
  | cons stmt rest ih =>
    rw [List.forall_mem_cons] at h
    cases stmt with
    | classDef decl =>
      exact .bind (.declareClass (ClassDecl.isDiscreet_of_stmt h.1)) fun _ _ _ _ => ih h.2
    | functionDef decl =>
      exact .bind (mirrors_declareFunction (FunctionDecl.isDiscreet_of_stmt h.1))
        fun _ _ _ _ => ih h.2
    | _ => exact ih h.2

theorem mirrors_round {body : Block} (h : Stmt.allPass discreet body) :
    Script.Mirrors own Anything W (ev.round body) (ev'.round body) := by
  refine .bind (.capture (E.block h)) fun W _ outcome houtcome => ?_
  match outcome with
  | .ok _ | .error .continued => exact .pure trivial
  | .error .broken => exact .pure trivial
  | .error (.returned _) | .error (.thrown _) | .error (.failed _) => exact .signal houtcome

theorem mirrors_visit {key : Option String} (hkey : ∀ name ∈ key, name ≠ Service.sessionGlobal)
    {value : String} (hvalue : value ≠ Service.sessionGlobal) {body : Block}
    (h : Stmt.allPass discreet body) {entry : Value × Value} (hfirst : entry.1.Within W)
    (hsecond : entry.2.Within W) :
    Script.Mirrors own Anything W (ev.visit key value body entry)
      (ev'.visit key value body entry) := by
  have rest {W : Realm} (hsecond : entry.2.Within W) : Script.Mirrors own Anything W
      (do
        Script.assignVariable value entry.2
        ev.round body)
      (do
        Script.assignVariable value entry.2
        ev'.round body) :=
    .bind (.assignVariable hvalue hsecond) fun _ _ _ _ => mirrors_round E h
  cases key with
  | none => exact rest hsecond
  | some key =>
    exact .bind (.assignVariable (hkey key rfl) hfirst) fun _ hW _ _ => rest (hsecond.mono hW)

/-- A loop over an object goes through the same fields, since the object is no session. -/
theorem mirrors_forEach {source : Value} (hsource : source.Within W) {key : Option String}
    (hkey : ∀ name ∈ key, name ≠ Service.sessionGlobal) {value : String}
    (hvalue : value ≠ Service.sessionGlobal) {body : Block} (h : Stmt.allPass discreet body) :
    Script.Mirrors own Anything W (ev.forEach source key value body)
      (ev'.forEach source key value body) := by
  have hkeyed {entries : Dict Value} (hentries : Dict.Within W entries) :
      Script.Mirrors own Anything W (Script.forWhile (ev.visit key value body) (keyed entries))
        (Script.forWhile (ev'.visit key value body) (keyed entries)) := by
    refine .forWhile fun W' hW entry hentry => ?_
    obtain ⟨e, he, rfl⟩ := List.mem_map.mp hentry
    exact mirrors_visit E hkey hvalue h trivial ((hentries e he).mono hW)
  cases source with
  | channel id =>
    simp only [forEach, E.rounds]
    refine .iterate _ (fun W' _ i => ?_) 0
    refine .bind (.request (r := .take id) trivial) fun W' _ item hitem => ?_
    cases (item : Option Value) with
    | none => exact .pure trivial
    | some item =>
      exact .bind (mirrors_visit E hkey hvalue h trivial (hitem item rfl)) fun _ _ _ _ =>
        .ite (fun _ => .pure trivial) fun _ => .pure trivial
  | array items =>
    refine .forWhile fun W' hW entry hentry => ?_
    obtain ⟨⟨v, i⟩, hv, rfl⟩ := List.mem_map.mp hentry
    have hmem := List.mem_of_getElem? (List.mem_zipIdx_iff_getElem?.mp hv)
    exact mirrors_visit E hkey hvalue h trivial ((Value.within_array.mp hsource v hmem).mono hW)
  | map entries => exact hkeyed (Value.within_map.mp hsource)
  | object ref =>
    refine .store (fun s _ => ?_) fun s hs => hkeyed (hs.fields ref hsource)
    rw [Store.fields_bags_of_holds s hsource]
  | nil => exact .pure trivial
  | _ => exact .fail _

theorem mirrors_selectCase (subject : Value) {cases : List (Expr × Block)}
    (h : ∀ case ∈ cases, case.1.passes discreet ∧ Stmt.allPass discreet case.2) :
    Script.Mirrors own (fun _ found => ∀ body ∈ found, Stmt.allPass discreet body) W
      (ev.selectCase subject cases) (ev'.selectCase subject cases) := by
  induction cases generalizing W with
  | nil => exact .pure (by simp)
  | cons case rest ih =>
    rw [List.forall_mem_cons] at h
    refine .bind (E.expr h.1.1) fun W _ v _ => .ite (fun _ => .pure ?_) fun _ => ih h.2
    rintro _ ⟨⟩
    exact h.1.2

theorem mirrors_runCase {body : Block} (h : Stmt.allPass discreet body) :
    Script.Mirrors own Value.Within W (ev.runCase body) (ev'.runCase body) := by
  refine .bind (.capture (E.block h)) fun W _ outcome houtcome => ?_
  match outcome with
  | .error .broken => exact .pure trivial
  | .ok _ | .error (.returned _) | .error .continued | .error (.thrown _) | .error (.failed _) =>
    exact .release houtcome

/-- The handler gets the same value on both sides. -/
theorem mirrors_guarded {body handler : Block} {name : String}
    (hname : name ≠ Service.sessionGlobal) (h : Stmt.allPass discreet body)
    (hhandler : Stmt.allPass discreet handler) :
    Script.Mirrors own Value.Within W (ev.guarded body name handler)
      (ev'.guarded body name handler) := by
  refine .bind (.capture (E.block h)) fun W _ outcome houtcome => ?_
  cases outcome with
  | ok v => exact .pure houtcome
  | error x =>
    cases x with
    | thrown v => exact .bind (.bindCaught hname houtcome) fun _ _ _ _ => E.block hhandler
    | failed fault => exact .bind (.bindCaught hname trivial) fun _ _ _ _ => E.block hhandler
    | _ => exact .signal houtcome

/-- A discreet statement does the same on both sides, one case for each kind of statement. -/
theorem mirrors_statement {stmt : Stmt} (h : stmt.passes discreet) :
    Script.Mirrors own Value.Within W (ev.statement stmt) (ev'.statement stmt) := by
  have hcheck := Stmt.check_of_passes h
  have hpasses {e : Expr} (he : .expr e ∈ stmt.parts) : (Job.expr e).passes discreet :=
    Stmt.passes_of_mem_parts h he
  have hpass {body : Block} (hbody : .block body ∈ stmt.parts) : (Job.block body).passes discreet :=
    Stmt.passes_of_mem_parts h hbody
  have hpart {W : Realm} {e : Expr} (he : .expr e ∈ stmt.parts) :
      Script.Mirrors own Value.Within W (ev.expr e) (ev'.expr e) := E.expr (hpasses he)
  have htest {W : Realm} {e : Expr} (he : .expr e ∈ stmt.parts) :
      Script.Mirrors own Anything W (ev.test e) (ev'.test e) := E.test (hpasses he)
  have hround {W : Realm} {body : Block} (hbody : .block body ∈ stmt.parts) :
      Script.Mirrors own Anything W (ev.round body) (ev'.round body) :=
    mirrors_round E (hpass hbody)
  have hblock {W : Realm} {body : Block} (hbody : .block body ∈ stmt.parts) :
      Script.Mirrors own Value.Within W (ev.block body) (ev'.block body) := E.block (hpass hbody)
  cases stmt with
  | declare typeName name value =>
    have hname : name ≠ Service.sessionGlobal := by simpa [discreet] using hcheck
    have bound {W : Realm} {v : Value} (hv : v.Within W) : Script.Discreet own Value.Within W (do
        Script.declareVariable name (Tag.ofName typeName) v
        return v) :=
      .bind (.declareVariable hname _ hv) fun _ hW _ _ => .pure (hv.mono hW)
    cases value with
    | some e => exact .bind (hpart (by simp [Stmt.parts])) fun _ _ _ hv => bound hv
    | none => exact bound (Value.within_zero _)
  | classDef decl =>
    exact .bind (.declareClass (ClassDecl.isDiscreet_of_stmt h)) fun _ _ _ _ => .pure trivial
  | functionDef decl =>
    exact .bind (mirrors_declareFunction (FunctionDecl.isDiscreet_of_stmt h)) fun _ _ _ _ =>
      .pure trivial
  | forEach iterable key value body =>
    have hnames : (∀ name ∈ key, name ≠ Service.sessionGlobal) ∧ value ≠ Service.sessionGlobal := by
      simpa [discreet, Option.all_eq_true] using hcheck
    have hbody : Stmt.allPass discreet body := hpass (by simp [Stmt.parts])
    exact .bind (hpart (by simp [Stmt.parts])) fun _ _ _ hsource =>
      .bind (mirrors_forEach E hsource hnames.1 hnames.2 hbody) fun _ _ _ _ => .pure trivial
  | whileLoop condition body =>
    simp only [statement, E.rounds]
    refine .bind (.repeatWhile _ fun _ _ => ?_) fun _ _ _ _ => .pure trivial
    exact .bind (htest (by simp [Stmt.parts])) fun _ _ _ _ =>
      .ite (fun _ => hround (by simp [Stmt.parts])) fun _ => .pure trivial
  | doWhile body condition =>
    simp only [statement, E.rounds]
    refine .bind (.repeatWhile _ fun _ _ => ?_) fun _ _ _ _ => .pure trivial
    exact .bind (hround (by simp [Stmt.parts])) fun _ _ _ _ =>
      .ite (fun _ => htest (by simp [Stmt.parts])) fun _ => .pure trivial
  | tryCatch body name handler =>
    have hname : name ≠ Service.sessionGlobal := by simpa [discreet] using hcheck
    exact mirrors_guarded E hname (hpass (by simp [Stmt.parts])) (hpass (by simp [Stmt.parts]))
  | branch condition consequence alternative =>
    refine .bind (htest (by simp [Stmt.parts])) fun _ _ _ _ =>
      .ite (fun _ => hblock (by simp [Stmt.parts])) fun _ => ?_
    cases alternative with
    | some body => exact hblock (by simp [Stmt.parts])
    | none => exact .pure trivial
  | select subject cases fallback =>
    have hcase (case : Expr × Block) (hmem : case ∈ cases) :
        case.1.passes discreet ∧ Stmt.allPass discreet case.2 := by
      have hjob (job : Job) (hjob : job ∈ [Job.expr case.1, Job.block case.2]) :
          job ∈ (Stmt.select subject cases fallback).parts :=
        List.mem_cons_of_mem _ (List.mem_append_left _
          (List.mem_flatMap.mpr ⟨case, hmem, hjob⟩))
      exact ⟨hpasses (hjob _ (by simp)), hpass (hjob _ (by simp))⟩
    refine .bind (hpart (by simp [Stmt.parts])) fun _ _ v _ =>
      .bind (mirrors_selectCase E v hcase) fun W _ found hfound => ?_
    cases hselected : found.or fallback with
    | none => exact .pure trivial
    | some body =>
      refine mirrors_runCase E ?_
      obtain hbody | ⟨-, hbody⟩ := Option.or_eq_some_iff.mp hselected
      · exact hfound body hbody
      · exact hpass (by simp [Stmt.parts, hbody])
  | raise e => exact .bind (hpart (by simp [Stmt.parts])) fun _ _ _ hv => .signal hv
  | returns value =>
    cases value with
    | none => exact .signal trivial
    | some e => exact .bind (hpart (by simp [Stmt.parts])) fun _ _ _ hv => .signal hv
  | breaks => exact .signal trivial
  | continues => exact .signal trivial
  | load path => exact .bind (E.load path) fun _ _ _ _ => .pure trivial
  | package name => exact .pure trivial
  | echo e =>
    exact .bind (hpart (by simp [Stmt.parts])) fun _ _ _ _ => .bind (.write _) fun _ _ _ _ =>
      .pure trivial
  | expr e => exact hpart (by simp [Stmt.parts])

theorem mirrors_statements {body : Block} (h : ∀ stmt ∈ body, stmt.passes discreet) {last : Value}
    (hlast : last.Within W) :
    Script.Mirrors own Value.Within W (ev.statements last body) (ev'.statements last body) := by
  induction body generalizing W last with
  | nil => exact .pure hlast
  | cons stmt rest ih =>
    rw [List.forall_mem_cons] at h
    exact .bind (mirrors_statement E h.1) fun _ _ _ hv => ih h.2 hv

theorem mirrors_topLevel {body : Block} (h : ∀ stmt ∈ body, stmt.passes discreet) {last : Value}
    (hlast : last.Within W) :
    Script.Mirrors own (fun W result => result.1.Within W) W (ev.topLevel last body)
      (ev'.topLevel last body) := by
  induction body generalizing W last with
  | nil => exact .pure hlast
  | cons stmt rest ih =>
    rw [List.forall_mem_cons] at h
    refine .ite (fun _ => ih h.2 hlast) fun _ => ?_
    refine .bind (.capture (mirrors_statement E h.1)) fun W hW outcome houtcome => ?_
    match outcome with
    | .ok v => exact ih h.2 houtcome
    | .error (.returned v) => exact .pure houtcome
    | .error .broken | .error .continued => exact ih h.2 (hlast.mono hW)
    | .error (.thrown _) | .error (.failed _) => exact .fail _

theorem mirrors_script {body : Block} (h : Stmt.allPass discreet body) :
    Script.Mirrors own (fun W result => result.1.Within W) W (ev.script body) (ev'.script body) :=
  .bind (mirrors_declareAll (Stmt.allPass_eq_true.mp h)) fun _ _ _ _ =>
    mirrors_topLevel E (Stmt.allPass_eq_true.mp h) trivial

/-! ## Jobs -/

/-- Every job within the realm does the same on both sides. -/
theorem mirrors_step {job : Job} (h : job.Within W) :
    Script.Mirrors own Value.Within W (ev.step job) (ev'.step job) := by
  cases job with
  | expr e => exact mirrors_evaluate E h
  | block body => exact mirrors_statements E (Stmt.allPass_eq_true.mp h) trivial
  | call callee args => exact mirrors_callValue E h.1 h.2
  | load place body =>
    exact .bind (.modifyStore fun _ hs => ⟨rfl, { hs with }⟩) fun _ _ _ _ =>
      .bind (mirrors_script E h) fun _ _ _ hv => .pure hv

theorem mirrors_work {work : Work} (h : work.Within W) :
    Script.Mirrors own Value.Within W (ev.work work) (ev'.work work) := by
  cases work with
  | call callee => exact E.call h (by simp)
  | evaluate e =>
    exact .bind (E.expr h) fun _ _ _ hv => .ite (fun _ => E.call hv (by simp)) fun _ => .pure hv

theorem mirrors_program {p : Program} (h : Stmt.allPass discreet p.statements) :
    Script.Mirrors own Value.Within W (ev.program p) (ev'.program p) := by
  refine .bind (mirrors_script E h) fun W _ result hresult =>
    .ite (fun _ => .pure hresult) fun _ => .store (fun _ _ => rfl) fun s hs => ?_
  cases hentry : (s.classes.findMethod? "Main" "main").filter (·.isInit) with
  | none => exact .pure hresult
  | some entry =>
    have hdecl := hs.method (Option.filter_eq_some_iff.mp hentry).1
    exact .settle (.bind (mirrors_create E "Main" (by simp)) fun W _ ref href =>
      mirrors_callMethod E hdecl href (by simp))

/-! ## Handlers -/

theorem mirrors_controller (className : String) :
    Script.Mirrors own Realm.Holds W (ev.controller className) (ev'.controller className) := by
  refine .bind (.capture (mirrors_create E className (by simp))) fun W _ outcome houtcome => ?_
  match outcome with
  | .ok ref => exact .pure houtcome
  | .error (.returned v) =>
    cases v with
    | object ref => exact .pure houtcome
    | _ => exact .fail _
  | .error .broken | .error .continued | .error (.thrown _) | .error (.failed _) => exact .fail _

/-- A handler is called with the same request, parameters and receiver. -/
theorem mirrors_handle {handler : Value} (hhandler : handler.Within W) (params : List String) :
    Script.Mirrors own Value.Within W (ev.handle handler params) (ev'.handle handler params) := by
  have hparams {W : Realm} : ∀ v ∈ params.map Value.text, v.Within W := by
    intro v hv
    obtain ⟨param, -, rfl⟩ := List.mem_map.mp hv
    trivial
  cases handler with
  | text target =>
    simp only [handle]
    split
    · exact .fail _
    · refine .bind (mirrors_controller E _) fun W _ ref href =>
        .store (fun _ _ => rfl) fun s hs => ?_
      split
      · exact .fail _
      · exact .settle (mirrors_callMethod E (hs.resolved ‹_›) href hparams)
  | _ => exact .settle (E.call hhandler hparams)

omit E in
/-- What a refusal flashes are texts. -/
theorem within_flash {names : List String} {session : Dict Value} {refusal : Refusal}
    (h : Middleware.firstRefusal? names session = some refusal) : Dict.Within W refusal.flash := by
  obtain ⟨name, -, hrefusal⟩ := List.exists_of_findSome?_eq_some h
  have htext (message : String) : Dict.Within W [("error", .text message)] := by
    simp [Dict.Within, Value.Within]
  unfold Middleware.refusal? at hrefusal
  split at hrefusal
  · split at hrefusal <;> cases hrefusal
    exact htext _
  · split at hrefusal <;> cases hrefusal
    exact Dict.within_nil
  · split at hrefusal <;> cases hrefusal
    exact htext _
  · cases hrefusal

/-- A request is let through or refused alike, and served alike. -/
theorem mirrors_serve {route : Route} (hroute : route.handler.Within W) (params : List String)
    (session : Dict Value) :
    Script.Mirrors own Value.Within W (ev.serve route params session)
      (ev'.serve route params session) := by
  unfold serve
  cases hrefusal : Middleware.firstRefusal? route.middleware session with
  | some refusal => exact Service.mirrors_newRedirect (fun _ _ => rfl) (within_flash hrefusal)
  | none => exact mirrors_handle E hroute params

omit E in
/-- With any number of levels, evaluation does the same with journals and with bags. -/
theorem mirrors_withLevels {journal : HostHandler} (hjournal : journal.Journals own)
    (host : HostHandler) (levels : Nat) :
    (withLevels journal levels).Mirrors own (withLevels host levels) := by
  induction levels with
  | zero => exact ⟨rfl, hjournal, fun _ => .starve⟩
  | succ levels ih => exact ⟨rfl, hjournal, fun hjob => mirrors_step ih hjob⟩

end Evaluator

end RouteScript
