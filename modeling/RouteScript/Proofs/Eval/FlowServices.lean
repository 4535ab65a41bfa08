import RouteScript.Proofs.Eval.Flow
import RouteScript.Proofs.Eval.ServiceRules

/-!
# Built-in functions and services under a policy

What built-in functions and services give obeys a policy if their arguments do. The variables in
sight matter to a single one of them: `async` hands them over to a new task.
-/

namespace RouteScript

variable {π : Policy} {R : Reach π} {args : List Value}

/-- An argument obeys the policy, or else the default does that takes its place. -/
theorem Value.obeys_argument (h : ∀ v ∈ args, v.Obeys π) {i : Nat} {default : Value}
    (hdefault : default.Obeys π) : (args[i]?.getD default).Obeys π :=
  Value.obeys_getD (fun v hv => h v (List.mem_of_getElem? hv)) hdefault

/-- A new task gets the variables in sight, which a rule has at home only. -/
theorem Flow.spawn (work : Work) (hbound : π.unbounded) (hhome : R.atHome) :
    Flow π R (fun _ => Script.spawn work) (Value.Obeys π) := by
  refine .task ?_ fun t _ => .update fun s hs => ⟨.spawn t.fork work, ?_, hbound⟩
  · intro t t' h
    have hfork : t'.fork = t.fork := by
      simp [Task.fork, Scope.fork, Scope.visible, h.globals, h.this, h.directory,
        h.innermost hhome]
    rw [hfork]
  · have hs' : (s.newFuture none).2.Obeys π := hs.newFuture (by simp)
    exact { hs' with }

theorem Flow.send (channel : Nat) {v : Value} (hv : v.Obeys π) (hbound : π.unbounded) :
    Flow π R (fun _ => Script.send channel v) fun _ => True := by
  refine .bind (.request (r := .offer channel v) hbound hv) fun reply _ => ?_
  refine .bind (P := fun _ => True) (.ofExcept fun _ _ => trivial) fun ticket _ => ?_
  exact .request (r := .settle channel ticket) hbound trivial

/-! ## Built-in functions -/

namespace Builtin

theorem flow_printLines (values : List Value) :
    Flow π R (fun _ => printLines values) fun _ => True := by
  induction values with
  | nil => exact .pure trivial
  | cons v rest ih => exact .bind (.write _) fun _ _ => ih

/-- What a future brings obeys the policy, because the store does. -/
theorem flow_awaitValue {v : Value} (hv : v.Obeys π) :
    Flow π R (fun _ => awaitValue v) (Value.Obeys π) := by
  cases v with
  | future id =>
    refine .bind (.request (r := .await id) hv trivial) fun outcome houtcome => ?_
    match outcome with
    | Except.ok v | Except.error (.returned v) => exact .pure houtcome
    | Except.error .broken | Except.error .continued => exact .pure trivial
    | Except.error (.thrown _) | Except.error (.failed _) =>
      exact .signal ⟨houtcome, by simp [Signal.isJump]⟩
  | _ => exact .pure hv

theorem flow_asyncValue {v : Value} (hv : v.Obeys π) (hbound : π.unbounded) (hhome : R.atHome) :
    Flow π R (fun _ => asyncValue v) (Value.Obeys π) := by
  refine .ite (fun _ => .spawn _ hbound hhome) fun _ => ?_
  refine .bind (P := fun _ => True) (.update fun s hs => ?_) fun _ _ => .pure hbound
  exact ⟨.future _, hs.newFuture (by rintro _ ⟨⟩; exact hv), trivial⟩

/-- Only a channel is taken for one. -/
theorem channel_eq_ok {role : String} {v : Value} {id : Nat} (h : channel role v = .ok id) :
    v = .channel id := by
  unfold channel at h
  split at h <;> cases h
  rfl

theorem flow_keysOf (v : Value) :
    Flow π R (fun _ => Script.ofExcept (keysOf v)) (Value.Obeys π) := by
  refine .ofExcept fun w hw => ?_
  unfold keysOf at hw
  split at hw <;> cases hw
  all_goals
    refine Value.obeys_array.mpr fun v hv => ?_
    obtain ⟨_, -, rfl⟩ := List.mem_map.mp hv
    trivial

theorem flow_valuesOf {v : Value} (hv : v.Obeys π) :
    Flow π R (fun _ => Script.ofExcept (valuesOf v)) (Value.Obeys π) := by
  refine .ofExcept fun w hw => ?_
  unfold valuesOf at hw
  split at hw <;> cases hw
  · exact Value.obeys_array.mpr (Value.obeys_map.mp hv).values
  · exact hv

theorem flow_explodeText (delimiter text : Value) :
    Flow π R (fun _ => Script.ofExcept (explodeText delimiter text)) (Value.Obeys π) := by
  refine .ofExcept fun w hw => ?_
  simp only [explodeText, bind, Except.bind] at hw
  split at hw
  · cases hw
  · split at hw
    · cases hw
    · split at hw <;> cases hw
      refine Value.obeys_array.mpr fun v hv => ?_
      obtain ⟨_, -, rfl⟩ := List.mem_map.mp hv
      trivial

theorem flow_implodeItems (left right : Value) :
    Flow π R (fun _ => Script.ofExcept (implodeItems left right)) (Value.Obeys π) := by
  refine .ofExcept fun w hw => ?_
  unfold implodeItems at hw
  split at hw <;> cases hw <;> trivial

/-- An element obeys the policy if its list does. -/
theorem obeys_lastOf {v : Value} (hv : v.Obeys π) : (lastOf v).Obeys π := by
  unfold lastOf
  split
  · exact Value.obeys_getD (fun v h => Value.obeys_array.mp hv v (List.mem_of_getLast? h)) trivial
  · exact Value.obeys_getD
      (fun v h => (Value.obeys_map.mp hv).values v (List.mem_of_getLast? h)) trivial
  · trivial

theorem flow_appendTo {items : List Value} {v : Value} (hitems : ∀ v ∈ items, v.Obeys π)
    (hv : v.Obeys π) : Flow π R (fun _ => Script.ofExcept (appendTo items v)) (Value.Obeys π) := by
  refine .ofExcept fun w hw => ?_
  unfold appendTo at hw
  split at hw <;> cases hw
  · exact Value.obeys_array.mpr (List.forall_mem_append.mpr ⟨Value.obeys_array.mp hv, hitems⟩)
  · exact Value.obeys_array.mpr hitems

theorem flow_mergeOf {left right : Value} (hleft : left.Obeys π) (hright : right.Obeys π) :
    Flow π R (fun _ => Script.ofExcept (mergeOf left right)) (Value.Obeys π) := by
  refine .ofExcept fun w hw => ?_
  unfold mergeOf at hw
  split at hw <;> cases hw
  · exact Value.obeys_array.mpr
      (List.forall_mem_append.mpr ⟨Value.obeys_array.mp hleft, Value.obeys_array.mp hright⟩)
  · exact Value.obeys_map.mpr ((Value.obeys_map.mp hleft).merge (Value.obeys_map.mp hright))

/-- Decoded text holds no functions. -/
theorem flow_decode (v : Value) :
    Flow π R (fun _ => Script.ofExcept (decode v)) (Value.Obeys π) := by
  refine .ofExcept fun w hw => ?_
  simp only [decode, bind, Except.bind] at hw
  split at hw
  · cases hw
  · rename_i text _
    cases hw
    cases Json.read? text with
    | none => trivial
    | some j => exact Value.obeys_ofJson j

/-- What is read from a file is text. -/
theorem obeys_fileContents {t : Task} {s : Store} {path : String} {v : Value}
    (h : fileContents t s path = .ok v) : v.Obeys π := by
  simp only [fileContents] at h
  split at h <;> cases h
  trivial

theorem flow_fileContents (path : String) :
    Flow π R (fun _ => do
      let t ← Script.task
      let s ← Script.store
      Script.ofExcept (fileContents t s path)) (Value.Obeys π) := by
  refine .task ?_ fun t _ => .bind .store fun s _ => .ofExcept fun _ => obeys_fileContents
  intro t t' h
  simp only [fileContents, h.directory]

/-- A builtin that the policy allows is a rule, and only `async` needs to be at home. -/
theorem flow_apply {b : Builtin} (hb : π.builtin b) (hhome : b = .async → R.atHome)
    (hargs : ∀ v ∈ args, v.Obeys π) : Flow π R (fun _ => b.apply args) (Value.Obeys π) := by
  have hfirst : (args.head?.getD Value.nil).Obeys π :=
    Value.obeys_getD (fun v hv => hargs v (List.mem_of_mem_head? hv)) trivial
  have hsecond : (args[1]?.getD Value.nil).Obeys π := Value.obeys_argument hargs trivial
  have htail : ∀ v ∈ args.tail, v.Obeys π := fun v hv => hargs v (List.mem_of_mem_tail hv)
  have htext {role : String} {v : Value} :
      Flow π R (fun _ => Script.ofExcept (Builtin.text role v)) fun _ => True :=
    .ofExcept fun _ _ => trivial
  -- a channel is there only if the policy allows it
  have hchannel (role : String) : Flow π R
      (fun _ => Script.ofExcept (Builtin.channel role (args.head?.getD .nil)))
      fun _ => π.unbounded := by
    refine .ofExcept fun id hid => ?_
    rw [channel_eq_ok hid] at hfirst
    exact hfirst
  cases b with
  | print | echo => exact .bind (flow_printLines args) fun _ _ => .pure trivial
  | printf => exact .bind htext fun _ _ => .bind (.write _) fun _ _ => .pure trivial
  | env =>
    refine .bind htext fun name _ => .bind .store fun s _ => ?_
    split
    · exact .pure trivial
    · exact .pure (Value.obeys_argument hargs trivial)
  | len | count => exact .bind .store fun _ _ => .pure trivial
  | jsonEncode => exact .encode hfirst
  | keys => exact flow_keysOf _
  | values => exact flow_valuesOf hfirst
  | explode => exact flow_explodeText _ _
  | implode => exact flow_implodeItems _ _
  | last => exact .pure (obeys_lastOf hfirst)
  | append => exact flow_appendTo htail hfirst
  | merge => exact flow_mergeOf hfirst hsecond
  | jsonDecode => exact flow_decode _
  | jsonVerify | str | int | float | typeOf => exact .pure trivial
  | fileGetContents => exact .bind htext fun path _ => flow_fileContents path
  | async =>
    exact flow_asyncValue hfirst (π.unbounded_of_builtin hb (.inl rfl)) (hhome rfl)
  | await => exact flow_awaitValue hfirst
  | makeChan =>
    have hbound := π.unbounded_of_builtin hb (.inr rfl)
    refine .bind (P := fun _ => True) (.ofExcept fun _ _ => trivial) fun capacity _ => ?_
    exact .update fun s hs => ⟨.channel capacity, hs.newChannel capacity, hbound⟩
  | send =>
    exact .bind (hchannel _) fun id hbound =>
      .bind (.send id hsecond hbound) fun _ _ => .pure trivial
  | recv =>
    exact .bind (hchannel _) fun id hbound =>
      .bind (.request (r := .take id) hbound trivial) fun _ hv =>
        .pure (Value.obeys_getD hv trivial)
  | close =>
    refine .bind (hchannel _) fun id _ => .bind .store fun s hs => ?_
    split
    · exact .pure trivial
    · rename_i c hc
      refine .bind (P := fun closed => closed.queue = c.queue) (.ofExcept fun closed h => ?_)
        fun closed hqueue => .bind (.modifyStore (fun _ => .close id closed) fun _ hs' => ?_)
          fun _ _ => .pure trivial
      · unfold Channel.close at h
        split at h <;> cases h
        rfl
      · refine hs'.setChannel id ?_
        rw [hqueue]
        exact hs.channels c (Array.mem_of_getElem? hc)

/-- The work that `async` hands over is one argument at least. -/
theorem flow_call {b : Builtin} (hb : π.builtin b) (hhome : b = .async → args ≠ [] → R.atHome)
    (hargs : ∀ v ∈ args, v.Obeys π) : Flow π R (fun _ => b.call args) (Value.Obeys π) := by
  refine .ite (fun harity => flow_apply hb (fun hasync => hhome hasync ?_) hargs) fun _ => .fail _
  subst hasync
  rintro rfl
  revert harity
  decide

end Builtin

/-! ## Services -/

namespace Service

variable {ref : ObjectRef} {method : String}

/-- An argument that is asked for is one of those given. -/
theorem Method.argument_mem {m : Method} {i : Nat} {v : Value} (h : m.argument args i = .ok v) :
    v ∈ args := by
  unfold argument at h
  split at h
  · cases h
    exact List.mem_of_getElem? ‹_›
  · cases h

theorem flow_text (m : Method) (args : List Value) (i : Nat) :
    Flow π R (fun _ => Script.ofExcept (m.text args i)) fun _ => True :=
  .ofExcept fun _ _ => trivial

theorem flow_argument (m : Method) (hargs : ∀ v ∈ args, v.Obeys π) (i : Nat) :
    Flow π R (fun _ => Script.ofExcept (m.argument args i)) (Value.Obeys π) :=
  .ofExcept fun v hv => hargs v (Method.argument_mem hv)

theorem flow_unknown (m : Method) {Q : Value → Prop} :
    Flow π R (fun _ => Script.ofExcept (m.unknown : Except Fault Value)) Q :=
  .ofExcept fun _ h => by cases h

/-- What a collection holds are fields of its object. -/
theorem obeys_elements {s : Store} (hs : s.Obeys π) (ref : ObjectRef) :
    ∀ v ∈ elements s ref, v.Obeys π := by
  unfold elements
  split
  · rename_i items hitems
    exact Value.obeys_array.mp ((hs.fields ref).get? _ hitems)
  · simp

theorem flow_setElements {items : List Value} (hitems : ∀ v ∈ items, v.Obeys π) :
    Flow π R (fun _ => setElements ref items) fun _ => True :=
  .setField ref _ (Value.obeys_array.mpr hitems)

/-- A stack takes its arguments into the store and gives back what it holds. -/
theorem flow_onStack (hargs : ∀ v ∈ args, v.Obeys π) :
    Flow π R (fun _ => onStack ref method args) (Value.Obeys π) := by
  refine .bind .store fun s hs => ?_
  have hitems := obeys_elements hs ref
  have hlast : ((elements s ref).getLast?.getD Value.nil).Obeys π :=
    Value.obeys_getD (fun v hv => hitems v (List.mem_of_getLast? hv)) trivial
  dsimp only
  split
  · exact .bind (flow_setElements hitems) fun _ _ => .pure trivial
  · refine .bind (flow_argument _ hargs 0) fun v hv => ?_
    refine .bind (flow_setElements (List.forall_mem_append.mpr ⟨hitems, ?_⟩)) fun _ _ =>
      .pure trivial
    simpa using hv
  · exact .bind (flow_setElements fun v hv => hitems v (List.dropLast_subset _ hv)) fun _ _ =>
      .pure hlast
  · exact .pure hlast
  · exact .pure trivial
  · exact .pure trivial
  · exact flow_unknown _

theorem flow_onQueue (hargs : ∀ v ∈ args, v.Obeys π) :
    Flow π R (fun _ => onQueue ref method args) (Value.Obeys π) := by
  refine .bind .store fun s hs => ?_
  have hitems := obeys_elements hs ref
  dsimp only
  split
  · exact .bind (flow_setElements hitems) fun _ _ => .pure trivial
  · refine .bind (flow_argument _ hargs 0) fun v hv => ?_
    refine .bind (flow_setElements (List.forall_mem_append.mpr ⟨hitems, ?_⟩)) fun _ _ =>
      .pure trivial
    simpa using hv
  · split
    · exact .pure trivial
    · rename_i v rest hrest
      rw [hrest, List.forall_mem_cons] at hitems
      exact .bind (flow_setElements hitems.2) fun _ _ => .pure hitems.1
  · exact .pure (Value.obeys_getD (fun v hv => hitems v (List.mem_of_mem_head? hv)) trivial)
  · exact .pure trivial
  · exact .pure trivial
  · exact flow_unknown _

/-- A number that is asked for is one. -/
theorem Method.number_eq_ok {m : Method} {i : Nat} {v : Value} (h : m.number args i = .ok v) :
    v.isNumeric := by
  simp only [number, bind, Except.bind] at h
  split at h
  · cases h
  · split at h <;> cases h
    assumption

theorem obeys_of_isNumeric {v : Value} (h : v.isNumeric) : v.Obeys π := by
  cases v <;> trivial

theorem obeys_rounded {m : Method} {round : Float → Float} {v : Value}
    (h : Math.rounded m round args = .ok v) : v.Obeys π := by
  simp only [Math.rounded, bind, Except.bind] at h
  split at h
  · cases h
  · rename_i number hnumber
    split at h <;> cases h
    · trivial
    · exact obeys_of_isNumeric (Method.number_eq_ok hnumber)

theorem obeys_absolute {m : Method} {v : Value} (h : Math.absolute m args = .ok v) :
    v.Obeys π := by
  simp only [Math.absolute, bind, Except.bind] at h
  split at h
  · cases h
  · split at h <;> cases h <;> trivial

/-- The extreme of numbers is a number. -/
theorem obeys_best {m : Method} {beats : Float → Float → Bool} {index : Nat} {current v : Value}
    {candidates : List Value} (hcurrent : current.isNumeric)
    (h : Math.best m beats index current candidates = .ok v) : v.isNumeric := by
  induction candidates generalizing index current with
  | nil =>
    cases h
    exact hcurrent
  | cons w rest ih =>
    simp only [Math.best] at h
    split at h
    · rename_i x y hx _
      have hw : w.isNumeric := by cases w <;> first | rfl | cases hx
      refine ih ?_ h
      split
      · exact hw
      · exact hcurrent
    · cases h

theorem obeys_extreme {m : Method} {beats : Float → Float → Bool} {v : Value}
    (h : Math.extreme m beats args = .ok v) : v.Obeys π := by
  simp only [Math.extreme] at h
  split at h
  · cases h
  · split at h
    · exact obeys_of_isNumeric (obeys_best ‹_› h)
    · cases h

/-- The methods of mathematics deal in numbers only. -/
theorem flow_math : Flow π R (fun _ => Math.call method args) (Value.Obeys π) := by
  unfold Math.call
  dsimp only
  split
  · exact .pure trivial
  · refine .bind (P := fun _ => True) (.ofExcept fun _ _ => trivial) fun bounds _ => ?_
    exact .update fun s hs => ⟨.ask _, hs.withAsked _, trivial⟩
  iterate 3 exact .ofExcept fun _ => obeys_rounded
  · exact .ofExcept fun _ => obeys_absolute
  iterate 2 exact .ofExcept fun _ => obeys_extreme
  · exact flow_unknown _

theorem flow_system (hargs : ∀ v ∈ args, v.Obeys π) :
    Flow π R (fun _ => System.call method args) (Value.Obeys π) := by
  unfold System.call
  dsimp only
  split
  · exact .pure trivial
  · refine .bind (flow_text _ _ _) fun name _ => .bind .store fun s _ => .pure ?_
    unfold System.environment
    split
    · trivial
    · exact Value.obeys_argument hargs trivial
  · exact .bind (flow_argument _ hargs 0) fun _ _ => .bind (.write _) fun _ _ => .pure trivial
  · refine .bind (flow_text _ _ _) fun program _ => .bind .store fun s _ => ?_
    refine .ite (fun _ => ?_) fun _ => .pure trivial
    refine .bind (P := fun _ => True) (.ofExcept fun _ _ => trivial) fun _ _ => ?_
    exact .update fun s hs => ⟨.ask _, hs.withAsked _, trivial⟩
  · exact flow_unknown _

theorem flow_log : Flow π R (fun _ => System.log method) (Value.Obeys π) :=
  .ite (fun _ => .pure trivial) fun _ => flow_unknown _

/-- What the host has put into the globals is the same for tasks that look alike. -/
theorem injected?_congr {inner : Prop} {t t' : Task} (h : t.Alike inner t') (name : String) :
    injected? name t' = injected? name t := by
  simp [injected?, Scope.global?, h.globals]

theorem flow_onRequest (hargs : ∀ v ∈ args, v.Obeys π) :
    Flow π R (fun _ => onRequest method args) (Value.Obeys π) := by
  refine .bind .store fun s hs => .task (fun t t' h => ?_) fun t _ => ?_
  · simp only [injected?_congr h]
  have hfields : Dict.Obeys π ((injected? requestGlobal t).elim [] s.fields) := by
    cases injected? requestGlobal t with
    | none => exact Dict.obeys_nil
    | some ref => exact hs.fields ref
  dsimp only
  split
  · exact .pure trivial
  · exact .bind (flow_text _ _ _) fun _ _ =>
      .pure (Value.obeys_getD hfields.get? (Value.obeys_argument hargs trivial))
  · exact .bind (flow_text _ _ _) fun _ _ => .pure trivial
  · exact .pure (Value.obeys_map.mpr hfields)
  · exact flow_unknown _

/-- A session is found through a global and read from the store. -/
theorem flow_onSession (hargs : ∀ v ∈ args, v.Obeys π) :
    Flow π R (fun _ => onSession method args) (Value.Obeys π) := by
  refine .ite (fun _ => .pure trivial) fun _ => .task (fun t t' h => ?_) fun t _ => ?_
  · simp only [injected?_congr h]
  split
  · refine .pure ?_
    unfold withoutSession
    split
    · exact Value.obeys_map.mpr Dict.obeys_nil
    · trivial
    · trivial
  · rename_i current _
    refine .bind .store fun s hs => ?_
    have hfields := hs.fields current
    split
    · exact .bind (flow_text _ _ _) fun _ _ =>
        .pure (Value.obeys_getD hfields.get? (Value.obeys_argument hargs trivial))
    · exact .bind (flow_text _ _ _) fun _ _ => .bind (flow_argument _ hargs 1) fun _ hv =>
        .bind (.setField _ _ hv) fun _ _ => .pure trivial
    · exact .bind (flow_text _ _ _) fun _ _ => .pure trivial
    · refine .bind (flow_text _ _ _) fun key _ => .bind (.modifyStore (fun _ => .fields _ _) ?_)
        fun _ _ => .pure trivial
      exact fun _ hs => hs.modifyFields current fun _ hd => hd.erase key
    · exact .pure (Value.obeys_map.mpr hfields)
    · exact flow_unknown _

theorem flow_newRedirect (url : Store → String) :
    Flow π R (fun _ => Script.update fun s => newRedirect (url s) [] s) (Value.Obeys π) := by
  refine .update fun s hs => ⟨.object "RedirectResponse" _, ?_, trivial⟩
  refine hs.newObject "RedirectResponse" ?_
  simp [Dict.Obeys, Value.Obeys]

/-- Where a redirect back leads to depends on the globals only. -/
theorem referer_congr {inner : Prop} {t t' : Task} (h : t.Alike inner t') :
    referer t' = referer t := by
  funext s
  simp [referer, injected?_congr h]

theorem flow_redirectBack : Flow π R (fun _ => redirectBack) (Value.Obeys π) := by
  refine .task (fun t t' h => ?_) fun t _ => flow_newRedirect _
  simp only [referer_congr h]

theorem flow_onResponse (hargs : ∀ v ∈ args, v.Obeys π) :
    Flow π R (fun _ => onResponse method args) (Value.Obeys π) := by
  have hcode : (args[1]?.getD (Value.int 200)).Obeys π := Value.obeys_argument hargs trivial
  have hkind : (args[2]?.getD (Value.text "text/plain")).Obeys π :=
    Value.obeys_argument hargs trivial
  unfold onResponse
  dsimp only
  split
  · exact .pure trivial
  · refine .bind (flow_argument _ hargs 0) fun data hdata => .pure (Value.obeys_map.mpr ?_)
    simp [Dict.Obeys, Value.Obeys, hdata, hcode]
  · refine .bind (flow_argument _ hargs 0) fun data hdata => ?_
    have hraw : Dict.Obeys π [("_type", .text "RAW"),
        ("content_type", args[2]?.getD (.text "text/plain")), ("data", data),
        ("status_code", args[1]?.getD (.int 200))] := by
      simp [Dict.Obeys, Value.Obeys, hdata, hcode, hkind]
    refine .ite (fun _ => ?_) fun _ => .pure (Value.obeys_map.mpr hraw)
    refine .bind .store fun s hs => .bind (P := Dict.Obeys π) (.ofExcept fun headers h => ?_)
      fun headers hheaders => .pure (Value.obeys_map.mpr (hraw.insert ?_ _))
    · unfold Method.map at h
      split at h <;> cases h
      · exact Dict.obeys_nil
      · exact Dict.obeys_nil
      · rename_i hmem
        exact Value.obeys_map.mp (hargs _ (List.mem_of_getElem? hmem))
      · exact hs.fields _
    · exact Value.obeys_map.mpr hheaders
  · exact .bind (flow_text _ _ _) fun url _ => flow_newRedirect fun _ => url
  · exact flow_redirectBack
  · exact flow_unknown _

theorem flow_onRedirect : Flow π R (fun _ => onRedirect method args) (Value.Obeys π) := by
  unfold onRedirect
  dsimp only
  split
  · exact .pure trivial
  · exact .bind (flow_text _ _ _) fun url _ => flow_newRedirect fun _ => url
  · exact flow_redirectBack
  · exact flow_unknown _

theorem flow_addTo (m : Method) (bucket : String) (hargs : ∀ v ∈ args, v.Obeys π) :
    Flow π R (fun _ => addTo m bucket ref args) (Value.Obeys π) := by
  refine .bind (flow_text _ _ _) fun key _ => .bind (flow_argument _ hargs 1) fun v hv => ?_
  refine .bind .store fun s hs => .bind (.setField _ _ (Value.obeys_map.mpr ?_)) fun _ _ =>
    .pure trivial
  refine Dict.Obeys.insert ?_ hv key
  split
  · rename_i entries hentries
    exact Value.obeys_map.mp ((hs.fields ref).get? _ hentries)
  · exact Dict.obeys_nil

theorem flow_onRedirectResponse (hargs : ∀ v ∈ args, v.Obeys π) :
    Flow π R (fun _ => onRedirectResponse ref method args) (Value.Obeys π) := by
  unfold onRedirectResponse
  dsimp only
  split
  · exact .pure trivial
  · exact flow_addTo _ _ hargs
  · exact flow_addTo _ _ hargs
  · exact flow_unknown _

theorem flow_addRoute (verb path : String) (handler : Value) :
    Flow π R (fun _ => addRoute verb path handler) fun _ => True :=
  .modifyStore (fun _ => .route verb path handler) fun _ hs => { hs with }

theorem flow_addRoutes (path : String) (routes : List (String × Value)) :
    Flow π R (fun _ => addRoutes path routes) fun _ => True := by
  induction routes with
  | nil => exact .pure trivial
  | cons route rest ih => exact .bind (flow_addRoute _ _ _) fun _ _ => ih

theorem flow_pushMiddleware (name : String) :
    Flow π R (fun _ => pushMiddleware name) fun _ => True :=
  .modifyStore (fun _ => .pushMiddleware name) fun _ hs => { hs with }

theorem flow_popMiddleware : Flow π R (fun _ => popMiddleware) fun _ => True :=
  .modifyStore (fun _ => .popMiddleware) fun _ hs => { hs with }

/-- A group calls one of its arguments. -/
theorem flow_group (hback : ∀ v ∈ args, R.job (.call v [])) :
    Flow π R (fun ev => onRouter ev.invoke "group" args) (Value.Obeys π) := by
  refine .bind (flow_text _ _ _) fun name _ => ?_
  refine .bind (P := (· ∈ args)) (.ofExcept fun _ h => Method.argument_mem h) fun body hbody => ?_
  refine .ite (fun _ => ?_) fun _ => .ofExcept fun _ h => by cases h
  refine .bind (flow_pushMiddleware name) fun _ _ => ?_
  refine .bind (.capture (.settle (.run (hback body hbody)))) fun outcome houtcome => ?_
  exact .bind flow_popMiddleware fun _ _ => .bind (.release houtcome) fun _ _ => .pure trivial

/-- A group calls its body back, which is the one place where a service starts a job. -/
theorem flow_onRouter (hback : ∀ v ∈ args, R.job (.call v [])) :
    Flow π R (fun ev => onRouter ev.invoke method args) (Value.Obeys π) := by
  have hhandler (m : Method) :
      Flow π R (fun _ => Script.ofExcept (routeHandler m args)) fun _ => True :=
    .ofExcept fun _ _ => trivial
  by_cases h : method = "group"
  · subst h
    exact flow_group hback
  · simp only [onRouter_of_ne_group h _ fun _ _ => Script.starve]
    unfold onRouter
    dsimp only
    split
    · exact .pure trivial
    -- the methods that add one route
    iterate 4
      exact .bind (flow_text _ _ _) fun _ _ => .bind (hhandler _) fun _ _ =>
        .bind (flow_addRoute _ _ _) fun _ _ => .pure trivial
    · exact .bind (flow_text _ _ _) fun _ _ => .bind (hhandler _) fun _ _ =>
        .bind (flow_addRoutes _ _) fun _ _ => .pure trivial
    · refine .bind (flow_text _ _ _) fun _ _ => .bind (flow_text _ _ _) fun _ _ =>
        .bind (flow_text _ _ _) fun _ _ => .bind (P := fun _ => True) (.ofExcept fun _ _ => trivial)
          fun _ _ => .bind (flow_addRoutes _ _) fun _ _ => .pure trivial
    · exact .bind (flow_text _ _ _) fun _ _ => .bind (flow_pushMiddleware _) fun _ _ =>
        .pure trivial
    · exact .bind flow_popMiddleware fun _ _ => .pure trivial
    · contradiction
    · exact flow_unknown _

theorem flow_call (service : Service) (className : String) (hargs : ∀ v ∈ args, v.Obeys π)
    (hback : ∀ v ∈ args, R.job (.call v [])) :
    Flow π R (fun ev => service.call ev className ref method args) (Value.Obeys π) := by
  cases service with
  | stack => exact flow_onStack hargs
  | queue => exact flow_onQueue hargs
  | math => exact flow_math
  | system => exact flow_system hargs
  | log => exact flow_log
  | request => exact flow_onRequest hargs
  | session => exact flow_onSession hargs
  | response => exact flow_onResponse hargs
  | redirect => exact flow_onRedirect
  | redirectResponse => exact flow_onRedirectResponse hargs
  | router => exact flow_onRouter hback
  | external => exact .settle (.host className ref method hargs)

end Service

end RouteScript
