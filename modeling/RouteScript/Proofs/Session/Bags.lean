import RouteScript.Proofs.Session.Journal
import RouteScript.Proofs.Session.Realm

/-!
# Stores with journals and stores with bags

A store in which sessions keep journals is looked at in another way: as the store in which every
session holds the bag that its journal amounts to. If nothing else leads to a session, then what
scripts read from the two stores is the same, and what they change in them stays so.
-/

namespace RouteScript

variable {W W' : Realm}

/-! ## Journals -/

/-- The value that a change puts into a session is within a realm. -/
def SessionChange.Within (W : Realm) : SessionChange → Prop
  | .put _ value => value.Within W
  | .forget _ => True

namespace SessionChange

variable {owner : Nat} {c : SessionChange}

theorem Within.mono (h : W <+: W') (hc : c.Within W) : c.Within W' := by
  cases c with
  | put key value => exact Value.Within.mono h hc
  | forget key => trivial

/-- A session is not within the realm, so no other change has the entry of one that forgets. -/
theorem ofEntry_entry (howner : W[owner]? ≠ some none) (hc : c.Within W) :
    ofEntry owner (c.entry owner) = c := by
  cases c with
  | put key value =>
    cases value with
    | object ref =>
      have hne : ref.id ≠ owner := fun heq => howner (heq ▸ hc)
      simp [entry, ofEntry, hne]
    | _ => rfl
  | forget key => simp [entry, ofEntry]

/-- A change within a realm keeps a bag within it. -/
theorem within_apply (hc : c.Within W) {bag : Dict Value} (hbag : Dict.Within W bag) :
    Dict.Within W (c.apply bag) := by
  cases c with
  | put key value => exact hbag.insert hc key
  | forget key => exact hbag.erase key

theorem within_applyAll {changes : List SessionChange} (h : ∀ c ∈ changes, c.Within W)
    {bag : Dict Value} (hbag : Dict.Within W bag) : Dict.Within W (applyAll changes bag) := by
  induction changes generalizing bag with
  | nil => exact hbag
  | cons c rest ih =>
    rw [List.forall_mem_cons] at h
    exact ih h.2 (within_apply h.1 hbag)

end SessionChange

namespace Journal

variable {owner : Nat} {journal : Dict Value}

/-- All entries of a journal are of changes within a realm. -/
def Within (W : Realm) (owner : Nat) (journal : Dict Value) : Prop :=
  ∀ e ∈ journal, ∃ c : SessionChange, c.Within W ∧ e = c.entry owner

theorem Within.mono (h : W <+: W') (hj : Journal.Within W owner journal) :
    Journal.Within W' owner journal :=
  fun e he => (hj e he).imp fun _ hc => ⟨hc.1.mono h, hc.2⟩

/-- A journal within a realm may get a further entry. -/
theorem Within.append (h : Journal.Within W owner journal) {c : SessionChange} (hc : c.Within W) :
    Journal.Within W owner (journal ++ [c.entry owner]) := by
  intro e he
  obtain he | he := List.mem_append.mp he
  · exact h e he
  · exact ⟨c, hc, List.mem_singleton.mp he⟩

theorem within_of_dict {bag : Dict Value} (h : Dict.Within W bag) (owner : Nat) :
    Journal.Within W owner bag :=
  fun e he => ⟨.put e.1 e.2, h e he, rfl⟩

/-- What a journal within a realm amounts to is within the realm. -/
theorem within_replay (howner : W[owner]? ≠ some none) (h : Journal.Within W owner journal) :
    Dict.Within W (replay owner journal) := by
  refine SessionChange.within_applyAll (List.forall_mem_map.mpr fun e he => ?_) Dict.within_nil
  obtain ⟨c, hc, rfl⟩ := h e he
  rwa [SessionChange.ofEntry_entry howner hc]

/-- A further entry makes one more change of the bag. -/
theorem replay_concat (howner : W[owner]? ≠ some none) {c : SessionChange} (hc : c.Within W)
    (journal : Dict Value) :
    replay owner (journal ++ [c.entry owner]) = c.apply (replay owner journal) := by
  rw [replay_append, List.map_singleton, SessionChange.ofEntry_entry howner hc]
  rfl

/-- What an object holds: for a session, the bag that its journal amounts to. -/
def bagOf (W : Realm) (id : Nat) (fields : Dict Value) : Dict Value :=
  match W[id]? with
  | some (some _) => replay id fields
  | _ => fields

/-- An object that is no session holds its fields. -/
theorem bagOf_of_holds {ref : ObjectRef} (h : W.Holds ref) (fields : Dict Value) :
    bagOf W ref.id fields = fields := by
  simp only [bagOf, show W[ref.id]? = some none from h]

/-- A session holds what its journal amounts to. -/
theorem bagOf_of_seals {ref : ObjectRef} (h : W.Seals ref) (fields : Dict Value) :
    bagOf W ref.id fields = replay ref.id fields := by
  obtain ⟨bag, hbag⟩ := h
  simp only [bagOf, hbag]

end Journal

/-! ## Stores -/

/-- What waits to be started is within a realm. -/
structure Spawned.Within (W : Realm) (job : Spawned) : Prop where
  task : job.task.Within W
  work : job.work.Within W

/-- Sessions keep journals, and everything else in a store that a task may use is within a realm. -/
structure Store.Within (W : Realm) (s : Store) : Prop where
  size : s.objects.size = W.length
  services : s.services = Service.journaled
  functions : ∀ e ∈ s.functions, e.2.IsDiscreet
  classes : ∀ e ∈ s.classes.entries, e.decl.IsDiscreet
  fields : ∀ ref, W.Holds ref → Dict.Within W (s.fields ref)
  journals : ∀ ref, W.Seals ref → Journal.Within W ref.id (s.fields ref)
  began : ∀ (ref : ObjectRef) (bag : Dict Value), W[ref.id]? = some (some bag) →
    bag <+: s.fields ref
  channels : ∀ c ∈ s.channels, ∀ v ∈ c.queue, v.Within W
  futures : ∀ outcome, some outcome ∈ s.futures →
    Signal.Ends (Signal.Within W) (Value.Within W) outcome
  spawned : ∀ job ∈ s.spawned, job.Within W
  routes : ∀ route ∈ s.routes.routes, route.handler.Within W
  files : ∀ place source program, s.files.textAt place = .ok source →
    Program.ofSource source = .ok program → Stmt.allPass discreet program.statements

namespace Store

variable {s : Store} {ref : ObjectRef} {fields : Dict Value}

/-- The store in which sessions hold the bags that their journals amount to. -/
def bags (W : Realm) (s : Store) : Store :=
  { s with
    services := Service.registry
    objects := s.objects.mapIdx (Journal.bagOf W) }

@[simp] theorem classes_bags : (s.bags W).classes = s.classes := rfl

@[simp] theorem services_bags : (s.bags W).services = Service.registry := by rw [bags]

@[simp] theorem channels_bags : (s.bags W).channels = s.channels := by rw [bags]

@[simp] theorem futures_bags : (s.bags W).futures = s.futures := by rw [bags]

@[simp] theorem size_bags : (s.bags W).objects.size = s.objects.size := Array.size_mapIdx

/-- The objects of both stores correspond one by one. -/
theorem fields_bags (s : Store) (ref : ObjectRef) :
    (s.bags W).fields ref = Journal.bagOf W ref.id (s.fields ref) := by
  simp only [Store.fields, bags, Array.getD_eq_getD_getElem?, Array.getElem?_mapIdx]
  cases s.objects[ref.id]? with
  | some fields => rfl
  | none =>
    unfold Journal.bagOf
    split <;> rfl

theorem fields_bags_of_holds (s : Store) (h : W.Holds ref) :
    (s.bags W).fields ref = s.fields ref := by
  rw [fields_bags, Journal.bagOf_of_holds h]

theorem fields_bags_of_seals (s : Store) (h : W.Seals ref) :
    (s.bags W).fields ref = Journal.replay ref.id (s.fields ref) := by
  rw [fields_bags, Journal.bagOf_of_seals h]

/-! ### Changes of objects -/

/-- A change of an object leaves the others alone. -/
theorem fields_modifyFields (hlt : ref.id < s.objects.size) (f : Dict Value → Dict Value)
    (other : ObjectRef) :
    (s.modifyFields ref f).fields other =
      if other.id = ref.id then f (s.fields other) else s.fields other := by
  simp only [Store.fields, modifyFields, Array.getD_eq_getD_getElem?, Array.getElem?_modify]
  by_cases h : other.id = ref.id
  · simp [h, hlt]
  · simp [h, Ne.symm h]

theorem fields_push (fields : Dict Value) (other : ObjectRef) :
    ({ s with objects := s.objects.push fields } : Store).fields other =
      if other.id = s.objects.size then fields else s.fields other := by
  simp only [Store.fields, Array.getD_eq_getD_getElem?, Array.getElem?_push]
  split <;> rfl

/-- An object changes in both stores if its bag changes with its journal. -/
theorem modifyFields_bags {f g : Dict Value → Dict Value}
    (h : g (Journal.bagOf W ref.id (s.fields ref)) =
      Journal.bagOf W ref.id (f (s.fields ref))) :
    (s.bags W).modifyFields ref g = (s.modifyFields ref f).bags W := by
  have hobjects : (s.bags W).objects.modify ref.id g =
      ((s.modifyFields ref f).bags W).objects := by
    apply Array.ext
    · simp [bags, modifyFields]
    · intro id hid hid'
      have hlt : id < s.objects.size := by simpa [bags, modifyFields] using hid'
      simp only [bags, modifyFields, Array.getElem_modify, Array.getElem_mapIdx]
      by_cases heq : ref.id = id
      · subst heq
        simpa [Store.fields, hlt] using h
      · simp [heq]
  simp only [modifyFields] at hobjects ⊢
  rw [hobjects]
  rfl

/-- An object that is no session changes alike in both stores. -/
theorem modifyFields_bags_of_holds (h : W.Holds ref) (f : Dict Value → Dict Value) :
    (s.bags W).modifyFields ref f = (s.modifyFields ref f).bags W :=
  modifyFields_bags (by rw [Journal.bagOf_of_holds h, Journal.bagOf_of_holds h])

theorem push_bags (hsize : s.objects.size = W.length) (began : Option (Dict Value))
    (fields : Dict Value) :
    ({ s with objects := s.objects.push fields } : Store).bags (W ++ [began]) =
      { s.bags W with
        objects := (s.bags W).objects.push
          (Journal.bagOf (W ++ [began]) s.objects.size fields) } := by
  have hold : s.objects.mapIdx (Journal.bagOf (W ++ [began])) =
      s.objects.mapIdx (Journal.bagOf W) := by
    apply Array.ext
    · simp
    · intro id hid hid'
      have hlt : id < W.length := by simpa [hsize] using hid
      simp [Journal.bagOf, List.getElem?_append_left hlt]
  simp only [bags, Array.mapIdx_push, hold]

/-- A new object has the same number in both stores. -/
theorem newObject_bags (hsize : s.objects.size = W.length) (className : String)
    (fields : Dict Value) :
    (s.bags W).newObject className fields =
      ((s.newObject className fields).1, (s.newObject className fields).2.bags (W ++ [none])) := by
  have hsame : Journal.bagOf (W ++ [none]) s.objects.size fields = fields := by
    simp [Journal.bagOf, hsize]
  simp only [newObject, push_bags hsize, size_bags, hsame]

/-! ### What stays within a realm -/

namespace Within

variable (h : s.Within W)

include h

theorem fields_lt (href : W.Holds ref) : ref.id < s.objects.size := by
  rw [h.size]
  exact href.lt

/-- A change of fields that keeps within the realm keeps the store within it. -/
theorem modifyFields (href : W.Holds ref) {f : Dict Value → Dict Value}
    (hf : Dict.Within W (s.fields ref) → Dict.Within W (f (s.fields ref))) :
    (s.modifyFields ref f).Within W := by
  have hfields := fields_modifyFields (h.fields_lt href) f
  have hsession (other : ObjectRef) (hother : W.Seals other) :
      (s.modifyFields ref f).fields other = s.fields other := by
    have hne : other.id ≠ ref.id := fun heq => hother.not_holds (by rwa [Realm.Holds, heq])
    rw [hfields, if_neg hne]
  refine { h with
    size := by simpa [Store.modifyFields] using h.size
    fields := fun other hother => ?_
    journals := fun other hother => hsession other hother ▸ h.journals other hother
    began := fun other bag hbag => hsession other ⟨bag, hbag⟩ ▸ h.began other bag hbag }
  rw [hfields]
  split
  · rename_i heq
    have hsame : s.fields other = s.fields ref := by simp only [Store.fields, heq]
    rw [hsame]
    exact hf (h.fields ref href)
  · exact h.fields other hother

theorem setField (href : W.Holds ref) (name : String) {v : Value} (hv : v.Within W) :
    (s.setField ref name v).Within W :=
  h.modifyFields href fun hd => hd.insert hv name

/-- A session gets a further entry in its journal. -/
theorem addEntry (href : W.Seals ref) {c : SessionChange} (hc : c.Within W) :
    (s.modifyFields ref (· ++ [c.entry ref.id])).Within W := by
  have hlt : ref.id < s.objects.size := by
    rw [h.size]
    exact (List.getElem?_eq_some_iff.mp href.choose_spec).1
  have hfields := fields_modifyFields hlt (· ++ [c.entry ref.id])
  refine { h with
    size := by simpa [Store.modifyFields] using h.size
    fields := fun other hother => ?_
    journals := fun other hother => ?_
    began := fun other bag hbag => ?_ }
  · have hne : other.id ≠ ref.id := fun heq => href.not_holds (by rwa [Realm.Holds, ← heq])
    rw [hfields, if_neg hne]
    exact h.fields other hother
  · rw [hfields]
    split
    · rename_i heq
      rw [← heq]
      exact (h.journals other hother).append hc
    · exact h.journals other hother
  · rw [hfields]
    split
    · exact (h.began other bag hbag).trans (List.prefix_append ..)
    · exact h.began other bag hbag

/-- There is a new object, which is a session if it is said what it begins with. -/
theorem push {began : Option (Dict Value)} {fields : Dict Value} (hfields : Dict.Within W fields)
    (hbegan : ∀ bag, began = some bag → bag = fields) :
    Store.Within (W ++ [began]) { s with objects := s.objects.push fields } := by
  have hprefix : W <+: W ++ [began] := List.prefix_append ..
  have hold {id : Nat} {b : Option (Dict Value)} (hid : (W ++ [began])[id]? = some b)
      (hne : id ≠ s.objects.size) : W[id]? = some b := by
    have hlt : id < (W ++ [began]).length := (List.getElem?_eq_some_iff.mp hid).1
    have hlt' : id < W.length := by
      have hsize := h.size
      simp only [List.length_append, List.length_singleton] at hlt
      omega
    rwa [List.getElem?_append_left hlt'] at hid
  have hnew {id : Nat} {b : Option (Dict Value)} (hid : (W ++ [began])[id]? = some b)
      (heq : id = s.objects.size) : began = b := by
    rw [heq, h.size] at hid
    simpa using hid
  refine {
    size := by simp [h.size]
    services := h.services
    functions := h.functions
    classes := h.classes
    fields := fun ref href => ?_
    journals := fun ref href => ?_
    began := fun ref bag hbag => ?_
    channels := fun c hc v hv => (h.channels c hc v hv).mono hprefix
    futures := fun outcome ho => Signal.ends_mono hprefix (h.futures outcome ho)
    spawned := fun job hjob =>
      ⟨(h.spawned job hjob).task.mono hprefix, (h.spawned job hjob).work.mono hprefix⟩
    routes := fun route hroute => (h.routes route hroute).mono hprefix
    files := h.files }
  · rw [fields_push]
    split
    · exact hfields.mono hprefix
    · exact (h.fields ref (hold href ‹_›)).mono hprefix
  · rw [fields_push]
    split
    · exact Journal.within_of_dict (hfields.mono hprefix) _
    · exact (h.journals ref (href.imp fun _ hbag => hold hbag ‹_›)).mono hprefix
  · rw [fields_push]
    split
    · exact hbegan bag (hnew hbag ‹_›) ▸ List.prefix_rfl
    · exact h.began ref bag (hold hbag ‹_›)

/-- A new object extends the realm by one that is no session. -/
theorem newObject (className : String) {fields : Dict Value} (hfields : Dict.Within W fields) :
    (s.newObject className fields).2.Within (W ++ [none]) ∧
      (W ++ [none]).Holds (s.newObject className fields).1 := by
  refine ⟨h.push hfields (by simp), ?_⟩
  simp [Store.newObject, Realm.Holds, h.size]

/-- A request comes in, and its session begins a journal. -/
theorem pushSession {request session : Dict Value} (hrequest : Dict.Within W request)
    (hsession : Dict.Within W session) :
    Store.Within (W ++ [none, some session])
      { s with objects := (s.objects.push request).push session } := by
  have hpush : Store.Within (W ++ [none]) { s with objects := s.objects.push request } :=
    h.push hrequest (by simp)
  have hnext : Store.Within (W ++ [none] ++ [some session])
      { s with objects := (s.objects.push request).push session } :=
    hpush.push (hsession.mono (List.prefix_append ..)) (by simp)
  simpa using hnext

/-- The journal of a new session amounts to the bag that the session begins with. -/
theorem pushSession_bags {request session : Dict Value} (hsession : Dict.Within W session)
    (hsorted : Dict.Sorted session) :
    ({ s with objects := (s.objects.push request).push session } : Store).bags
        (W ++ [none, some session]) =
      { s.bags W with objects := ((s.bags W).objects.push request).push session } := by
  have hsize : (s.objects.push request).size = (W ++ [none]).length := by simp [h.size]
  have hrequest : Journal.bagOf (W ++ [none]) s.objects.size request = request := by
    simp [Journal.bagOf, h.size]
  -- the handle of the new session is not within the realm, so no value of the bag forgets a key
  have hsession : Journal.bagOf (W ++ [none] ++ [some session]) (s.objects.push request).size
      session = session := by
    have hnew : (W ++ [none] ++ [some session])[(s.objects.push request).size]? =
        some (some session) := by simp [h.size]
    have habsent : W[(s.objects.push request).size]? ≠ some none := by simp [h.size]
    simp only [Journal.bagOf, hnew]
    exact Journal.replay_of_sorted hsorted fun e he =>
      SessionChange.ofEntry_entry (c := .put e.1 e.2) habsent (hsession e he)
  have hfirst := push_bags h.size none request
  have hsecond := push_bags (s := { s with objects := s.objects.push request }) hsize
    (some session) session
  rw [hrequest] at hfirst
  rw [hsession, hfirst] at hsecond
  simpa using hsecond

theorem newChannel (capacity : Nat) : (s.newChannel capacity).2.Within W := by
  refine { h with channels := fun c hc => ?_ }
  obtain hc | rfl := Array.mem_push.mp hc
  · exact h.channels c hc
  · simp

theorem setChannel (id : Nat) {c : Channel} (hc : ∀ v ∈ c.queue, v.Within W) :
    Store.Within W { s with channels := s.channels.setIfInBounds id c } := by
  refine { h with channels := fun c' hc' => ?_ }
  obtain hc' | rfl := Array.mem_or_eq_of_mem_setIfInBounds hc'
  · exact h.channels c' hc'
  · exact hc

theorem newFuture {outcome : Option (Except Signal Value)}
    (houtcome : ∀ o ∈ outcome, Signal.Ends (Signal.Within W) (Value.Within W) o) :
    (s.newFuture outcome).2.Within W := by
  refine { h with futures := fun o ho => ?_ }
  obtain ho | ho := Array.mem_push.mp ho
  · exact h.futures o ho
  · exact houtcome o ho.symm

/-- A future may be settled with an outcome within the realm. -/
theorem settleFuture (future : Nat) {outcome : Except Signal Value}
    (houtcome : Signal.Ends (Signal.Within W) (Value.Within W) outcome) :
    (s.settleFuture future outcome).Within W := by
  refine { h with futures := fun o ho => ?_ }
  obtain ho | ho := Array.mem_or_eq_of_mem_setIfInBounds ho
  · exact h.futures o ho
  · cases ho
    exact houtcome

theorem spawn {t : Task} (ht : t.Within W) {work : Work} (hwork : work.Within W) :
    (s.spawn t work).2.Within W := by
  have hs : (s.newFuture none).2.Within W := h.newFuture (by simp)
  refine { hs with spawned := fun job hjob => ?_ }
  obtain hjob | hjob := List.mem_append.mp hjob
  · exact h.spawned job hjob
  · obtain rfl := List.mem_singleton.mp hjob
    exact ⟨ht, hwork⟩

theorem declareFunction {decl : FunctionDecl} (hdecl : decl.IsDiscreet) :
    Store.Within W { s with functions := Dict.insert decl.name decl s.functions } := by
  refine { h with functions := fun e he => ?_ }
  obtain rfl | he := Dict.mem_insert he
  · exact hdecl
  · exact h.functions e he

/-- A class may be declared if its code is discreet. -/
theorem declareClass {decl : ClassDecl} (hdecl : decl.IsDiscreet) {classes : ClassTable}
    (hregister : s.classes.register decl = .ok classes) : Store.Within W { s with classes } := by
  refine { h with classes := fun e he => ?_ }
  obtain heq | ⟨e', he', heq⟩ := ClassTable.mem_register hregister he
  · rw [heq]
    exact hdecl
  · rw [heq]
    exact h.classes e' he'

theorem withAsked (asked : Nat) : Store.Within W { s with asked } := { h with }

theorem addRoute (verb path : String) {handler : Value} (hhandler : handler.Within W) :
    Store.Within W { s with routes := s.routes.add verb path handler } := by
  have hplace {route r : Route} {l : List Route} (hr : r ∈ RouteTable.place route l) :
      r = route ∨ r ∈ l := by
    fun_induction RouteTable.place route l <;> grind
  refine { h with routes := fun r hr => ?_ }
  obtain rfl | hr := hplace hr
  · exact hhandler
  · exact h.routes r hr

/-- The handler of a route that is found is within the realm. -/
theorem handler {method path : String} {route : Route} {params : List String}
    (hfound : s.routes.find? method path = some (route, params)) : route.handler.Within W := by
  refine h.routes route ?_
  simp only [RouteTable.find?] at hfound
  split at hfound
  · rename_i hroute
    cases hfound
    exact List.mem_of_mem_filter (List.mem_of_find?_eq_some hroute)
  · obtain ⟨r, hr, hmatch⟩ := List.exists_of_findSome?_eq_some hfound
    obtain ⟨_, -, heq⟩ := Option.map_eq_some_iff.mp hmatch
    cases heq
    exact List.mem_of_mem_filter hr

theorem method {className name : String} {decl : FunctionDecl}
    (hdecl : s.classes.findMethod? className name = some decl) : decl.IsDiscreet := by
  obtain ⟨entry, hentry, hdecl⟩ := List.exists_of_findSome?_eq_some hdecl
  exact (h.classes entry (ClassTable.mem_of_mem_chain hentry)).method
    (List.mem_of_find?_eq_some hdecl)

theorem resolved {className name : String} {decl : FunctionDecl}
    (hdecl : s.classes.resolve? className name = some decl) : decl.IsDiscreet := by
  obtain hdecl | ⟨-, hdecl⟩ := Option.or_eq_some_iff.mp hdecl
  · exact h.method hdecl
  · obtain ⟨_, -, rfl⟩ := Option.map_eq_some_iff.mp hdecl
    exact FunctionDecl.isDiscreet_hosted name

/-- The defaults along a chain are discreet. -/
theorem initial {className : String} {entry : ClassEntry}
    (hentry : entry ∈ s.classes.chain className) {property : PropertyDecl}
    (hproperty : property ∈ entry.decl.properties) {e : Expr} (he : property.initial = some e) :
    e.passes discreet := by
  have hdecl := (h.classes entry (ClassTable.mem_of_mem_chain hentry)).code
  exact PropertyDecl.passes_iff.mp ((ClassDecl.passes_iff.mp hdecl).1 property hproperty) e he

end Within

end Store

/-! ## Requests -/

namespace Request

variable {s s' : Store}

/-- Requests look at channels and futures only. -/
theorem attempt?_bags (r : Request) (s : Store) :
    r.attempt? (s.bags W) = (r.attempt? s).map fun found => (found.1, found.2.bags W) := by
  cases r with
  | offer channel value =>
    simp only [attempt?, Store.channels_bags]
    cases s.channels[channel]? with
    | none => rfl
    | some c =>
      simp only
      cases c.offer? value with
      | none => rfl
      | some offered => cases offered <;> rfl
  | settle channel ticket =>
    simp only [attempt?, Store.channels_bags]
    cases s.channels[channel]? with
    | none => rfl
    | some c =>
      simp only
      split <;> rfl
  | take channel =>
    simp only [attempt?, Store.channels_bags]
    cases s.channels[channel]? with
    | none => rfl
    | some c =>
      simp only
      cases c.take? <;> rfl
  | await future =>
    simp only [attempt?, Store.futures_bags]
    cases s.futures.getD future none <;> rfl

/-- What an answered request brings is within the realm, and so is the store it leaves. -/
theorem within_of_attempt? {r : Request} (hr : r.Within W) (hs : s.Within W) {reply : r.Reply}
    (h : r.attempt? s = some (reply, s')) : r.BringsWithin W reply ∧ s'.Within W := by
  have hqueue {id : Nat} {c : Channel} (hc : s.channels[id]? = some c) :
      ∀ v ∈ c.queue, v.Within W := hs.channels c (Array.mem_of_getElem? hc)
  cases r with
  | offer channel value =>
    simp only [attempt?] at h
    split at h
    · cases h
    · rename_i c hc
      obtain ⟨offered, hoffer, h⟩ := Option.map_eq_some_iff.mp h
      split at h <;> cases h
      · exact ⟨trivial, hs⟩
      · refine ⟨trivial, hs.setChannel _ ?_⟩
        unfold Channel.offer? at hoffer
        split at hoffer
        · cases hoffer
        · split at hoffer <;> cases hoffer
          simpa [or_imp, forall_and] using ⟨hqueue hc, hr⟩
  | settle channel ticket =>
    simp only [attempt?] at h
    split at h
    · cases h
    · split at h <;> cases h
      exact ⟨trivial, hs⟩
  | take channel =>
    simp only [attempt?] at h
    split at h
    · cases h
    · rename_i c hc
      obtain ⟨taken, htake, h⟩ := Option.map_eq_some_iff.mp h
      cases h
      have hc := hqueue hc
      unfold Channel.take? at htake
      split at htake
      · rename_i value rest hrest
        cases htake
        rw [hrest, List.forall_mem_cons] at hc
        exact ⟨by rintro _ ⟨⟩; exact hc.1, hs.setChannel _ hc.2⟩
      · split at htake <;> cases htake
        exact ⟨by rintro _ ⟨⟩, hs.setChannel _ hc⟩
  | await future =>
    obtain ⟨outcome, hfuture, h⟩ := Option.map_eq_some_iff.mp h
    cases h
    refine ⟨hs.futures reply ?_, hs⟩
    unfold Array.getD at hfuture
    split at hfuture
    · exact hfuture ▸ Array.getElem_mem _
    · cases hfuture

end Request

end RouteScript
