import RouteScript.Proofs.Session.Mirror

/-!
# Built-in functions and services with journals and with bags

Built-in functions and services do the same on a store with journals as on one with bags if their
arguments are within the realm. For the methods of sessions this is the point: on a bag they do what
is read off a journal.
-/

namespace RouteScript

variable {W : Realm} {own : Option ObjectRef} {args : List Value}

/-- An argument is within the realm, or else the default is that takes its place. -/
theorem Value.within_argument (h : ∀ v ∈ args, v.Within W) {i : Nat} {default : Value}
    (hdefault : default.Within W) : (args[i]?.getD default).Within W :=
  Value.within_getD (fun v hv => h v (List.mem_of_getElem? hv)) hdefault

namespace Script.Mirrors

/-- A new task works for the session of the task that starts it. -/
theorem spawn {work : Work} (hwork : work.Within W) :
    Script.Discreet own Value.Within W (Script.spawn work) :=
  .task fun _ ht => .update fun _ hs =>
    ⟨W, .refl W, rfl, hs.spawn ht.within.fork hwork, trivial⟩

theorem send (channel : Nat) {v : Value} (hv : v.Within W) :
    Script.Discreet own Anything W (Script.send channel v) := by
  refine .bind (.request (r := .offer channel v) hv) fun _ _ reply _ => ?_
  refine .bind (P := Anything) (.ofExcept fun _ _ => trivial) fun _ _ ticket _ => ?_
  exact (request (r := .settle channel ticket) trivial).imp fun _ _ _ _ => trivial

end Script.Mirrors

/-! ## Documents -/

namespace Value

mutual

/-- A value within a realm leads to no session. -/
theorem holds_of_mem_objects {v : Value} (h : v.Within W) : ∀ ref ∈ v.objects, W.Holds ref := by
  cases v with
  | object ref =>
    rw [objects, List.forall_mem_singleton]
    exact h
  | array items =>
    rw [objects]
    rw [Within] at h
    exact holds_of_mem_itemObjects h
  | map entries =>
    rw [objects]
    rw [Within] at h
    exact holds_of_mem_entryObjects h
  | _ => simp [objects]

theorem holds_of_mem_itemObjects {l : List Value} (h : AllWithin W l) :
    ∀ ref ∈ itemObjects l, W.Holds ref := by
  cases l with
  | nil => simp [itemObjects]
  | cons v rest =>
    rw [itemObjects, List.forall_mem_append]
    exact ⟨holds_of_mem_objects h.1, holds_of_mem_itemObjects h.2⟩

theorem holds_of_mem_entryObjects {l : List (String × Value)} (h : EntriesWithin W l) :
    ∀ ref ∈ entryObjects l, W.Holds ref := by
  cases l with
  | nil => simp [entryObjects]
  | cons e rest =>
    rw [entryObjects, List.forall_mem_append]
    exact ⟨holds_of_mem_objects h.1, holds_of_mem_entryObjects h.2⟩

end

mutual

/-- The text of a value depends on the objects it leads to only. -/
theorem toJsonWith_congr {form form' : ObjectRef → Json} {v : Value}
    (h : ∀ ref ∈ v.objects, form' ref = form ref) : v.toJsonWith form' = v.toJsonWith form := by
  cases v with
  | object ref => exact h ref (by simp [objects])
  | array items =>
    rw [toJsonWith, toJsonWith, itemsToJson_congr (by rwa [objects] at h)]
  | map entries =>
    rw [toJsonWith, toJsonWith, entriesToJson_congr (by rwa [objects] at h)]
  | _ => rfl

theorem itemsToJson_congr {form form' : ObjectRef → Json} {l : List Value}
    (h : ∀ ref ∈ itemObjects l, form' ref = form ref) :
    itemsToJson form' l = itemsToJson form l := by
  cases l with
  | nil => rfl
  | cons v rest =>
    rw [itemObjects, List.forall_mem_append] at h
    rw [itemsToJson, itemsToJson, toJsonWith_congr h.1, itemsToJson_congr h.2]

theorem entriesToJson_congr {form form' : ObjectRef → Json} {l : List (String × Value)}
    (h : ∀ ref ∈ entryObjects l, form' ref = form ref) :
    entriesToJson form' l = entriesToJson form l := by
  cases l with
  | nil => rfl
  | cons e rest =>
    rw [entryObjects, List.forall_mem_append] at h
    rw [entriesToJson, entriesToJson, toJsonWith_congr h.1, entriesToJson_congr h.2]

end

variable {fields fields' : ObjectRef → Dict Value}
  (hsame : ∀ ref, W.Holds ref → fields' ref = fields ref)
  (hfields : ∀ ref, W.Holds ref → Dict.Within W (fields ref))

include hsame hfields

/-- Whether a value can be written is the same on both sides. -/
theorem endsWithin_congr (depth : Nat) {v : Value} (hv : v.Within W) :
    v.endsWithin fields' depth = v.endsWithin fields depth := by
  induction depth generalizing v with
  | zero => rfl
  | succ depth ih =>
    rw [Bool.eq_iff_iff]
    simp only [endsWithin, List.all_eq_true]
    refine forall₂_congr fun ref href => ?_
    have hheld := holds_of_mem_objects hv ref href
    rw [hsame ref hheld]
    exact forall₂_congr fun e he => by rw [ih (hfields ref hheld e he)]

/-- What is written is the same on both sides, since no session is reached. -/
theorem toJson_congr (depth : Nat) {v : Value} (hv : v.Within W) :
    v.toJson fields' depth = v.toJson fields depth := by
  induction depth generalizing v with
  | zero => rfl
  | succ depth ih =>
    refine toJsonWith_congr fun ref href => ?_
    have hheld := holds_of_mem_objects hv ref href
    rw [hsame ref hheld]
    refine congrArg Json.object (List.map_congr_left fun e he => ?_)
    exact congrArg (Prod.mk e.1) (ih (hfields ref hheld e he))

end Value

/-! ## Built-in functions -/

namespace Builtin

/-- Encoding does the same on both sides. -/
theorem mirrors_encode {v : Value} (hv : v.Within W) :
    Script.Discreet own Value.Within W (encode v) := by
  refine .store (fun s hs => ?_) fun s _ => .ite (fun _ => .pure trivial) fun _ => .starve
  have hsame (ref : ObjectRef) (href : W.Holds ref) : (s.bags W).fields ref = s.fields ref :=
    Store.fields_bags_of_holds s href
  simp only [Store.toJson, Store.size_bags, Value.endsWithin_congr hsame hs.fields _ hv,
    Value.toJson_congr hsame hs.fields _ hv]

theorem mirrors_printLines (values : List Value) :
    Script.Discreet own Anything W (printLines values) := by
  induction values generalizing W with
  | nil => exact .pure trivial
  | cons v rest ih => exact .bind (.write _) fun _ _ _ _ => ih

theorem mirrors_awaitValue {v : Value} (hv : v.Within W) :
    Script.Discreet own Value.Within W (awaitValue v) := by
  cases v with
  | future id =>
    refine .bind (.request (r := .await id) trivial) fun _ _ outcome houtcome => ?_
    match outcome with
    | Except.ok v | Except.error (.returned v) => exact .pure houtcome
    | Except.error .broken | Except.error .continued => exact .pure trivial
    | Except.error (.thrown _) | Except.error (.failed _) => exact .signal houtcome
  | _ => exact .pure hv

theorem mirrors_asyncValue {v : Value} (hv : v.Within W) :
    Script.Discreet own Value.Within W (asyncValue v) := by
  refine .ite (fun _ => .spawn hv) fun _ => ?_
  refine .bind (P := Anything) (.update fun s hs => ?_) fun _ _ _ _ => .pure trivial
  exact ⟨W, .refl W, rfl, hs.newFuture (by rintro _ ⟨⟩; exact hv), trivial⟩

theorem within_keysOf {v w : Value} (h : keysOf v = .ok w) : w.Within W := by
  unfold keysOf at h
  split at h <;> cases h
  all_goals
    refine Value.within_array.mpr fun v hv => ?_
    obtain ⟨_, -, rfl⟩ := List.mem_map.mp hv
    trivial

/-- The values of a container are within the realm if the container is. -/
theorem within_valuesOf {v w : Value} (hv : v.Within W) (h : valuesOf v = .ok w) :
    w.Within W := by
  unfold valuesOf at h
  split at h <;> cases h
  · exact Value.within_array.mpr (Value.within_map.mp hv).values
  · exact hv

theorem within_explodeText {delimiter text w : Value} (h : explodeText delimiter text = .ok w) :
    w.Within W := by
  simp only [explodeText, bind, Except.bind] at h
  split at h
  · cases h
  · split at h
    · cases h
    · split at h <;> cases h
      refine Value.within_array.mpr fun v hv => ?_
      obtain ⟨_, -, rfl⟩ := List.mem_map.mp hv
      trivial

theorem within_implodeItems {left right w : Value} (h : implodeItems left right = .ok w) :
    w.Within W := by
  unfold implodeItems at h
  split at h <;> cases h <;> trivial

theorem within_lastOf {v : Value} (hv : v.Within W) : (lastOf v).Within W := by
  unfold lastOf
  split
  · exact Value.within_getD (fun v h => Value.within_array.mp hv v (List.mem_of_getLast? h)) trivial
  · exact Value.within_getD
      (fun v h => (Value.within_map.mp hv).values v (List.mem_of_getLast? h)) trivial
  · trivial

theorem within_appendTo {items : List Value} {v w : Value} (hitems : ∀ v ∈ items, v.Within W)
    (hv : v.Within W) (h : appendTo items v = .ok w) : w.Within W := by
  unfold appendTo at h
  split at h <;> cases h
  · exact Value.within_array.mpr (List.forall_mem_append.mpr ⟨Value.within_array.mp hv, hitems⟩)
  · exact Value.within_array.mpr hitems

theorem within_mergeOf {left right w : Value} (hleft : left.Within W) (hright : right.Within W)
    (h : mergeOf left right = .ok w) : w.Within W := by
  unfold mergeOf at h
  split at h <;> cases h
  · exact Value.within_array.mpr
      (List.forall_mem_append.mpr ⟨Value.within_array.mp hleft, Value.within_array.mp hright⟩)
  · exact Value.within_map.mpr ((Value.within_map.mp hleft).merge (Value.within_map.mp hright))

/-- Decoded text leads to no object. -/
theorem within_decode {v w : Value} (h : decode v = .ok w) : w.Within W := by
  simp only [decode, bind, Except.bind] at h
  split at h
  · cases h
  · rename_i text _
    cases h
    cases Json.read? text with
    | none => trivial
    | some j => exact Value.within_ofJson j

theorem within_fileContents {t : Task} {s : Store} {path : String} {v : Value}
    (h : fileContents t s path = .ok v) : v.Within W := by
  simp only [fileContents] at h
  split at h <;> cases h
  trivial

theorem size_bags {s : Store} {v : Value} (hv : v.Within W) :
    size (s.bags W) v = size s v := by
  cases v with
  | object ref => simp only [size, Store.fields_bags_of_holds s hv]
  | _ => rfl

/-- Closing a channel changes the same channel on both sides. -/
theorem mirrors_close (args : List Value) :
    Script.Discreet own Value.Within W (Builtin.close.apply args) := by
  refine .bind (P := Anything) (.ofExcept fun _ _ => trivial) fun W _ id _ => ?_
  refine .store (fun _ _ => rfl) fun s hs => ?_
  split
  · exact .pure trivial
  · rename_i c hc
    refine .bind (P := fun _ closed => closed.queue = c.queue) (.ofExcept fun closed h => ?_)
      fun W' hW closed hqueue => .bind (.modifyStore fun s' hs' => ⟨rfl, hs'.setChannel id ?_⟩)
        fun _ _ _ _ => .pure trivial
    · unfold Channel.close at h
      split at h <;> cases h
      rfl
    · rw [hqueue]
      exact fun v hv => (hs.channels c (Array.mem_of_getElem? hc) v hv).mono hW

/-- Every builtin does the same on both sides, one case for each of them. -/
theorem mirrors_apply (b : Builtin) (hargs : ∀ v ∈ args, v.Within W) :
    Script.Discreet own Value.Within W (b.apply args) := by
  have hfirst : (args.head?.getD Value.nil).Within W :=
    Value.within_getD (fun v hv => hargs v (List.mem_of_mem_head? hv)) trivial
  have hsecond : (args[1]?.getD Value.nil).Within W := Value.within_argument hargs trivial
  have htail : ∀ v ∈ args.tail, v.Within W := fun v hv => hargs v (List.mem_of_mem_tail hv)
  have htext {role : String} {v : Value} :
      Script.Discreet own Anything W (Script.ofExcept (Builtin.text role v)) :=
    .ofExcept fun _ _ => trivial
  have hchannel (role : String) {v : Value} :
      Script.Discreet own Anything W (Script.ofExcept (Builtin.channel role v)) :=
    .ofExcept fun _ _ => trivial
  cases b with
  | print | echo => exact .bind (mirrors_printLines args) fun _ _ _ _ => .pure trivial
  | printf => exact .bind htext fun _ _ _ _ => .bind (.write _) fun _ _ _ _ => .pure trivial
  | env =>
    refine .bind htext fun W' hW name _ => .store (fun _ _ => rfl) fun s _ => ?_
    split
    · exact .pure trivial
    · exact .pure (Value.within_argument (Value.all_mono hW hargs) trivial)
  | len | count =>
    refine .store (fun s _ => ?_) fun _ _ => .pure trivial
    rw [size_bags hfirst]
  | jsonEncode => exact mirrors_encode hfirst
  | keys => exact .ofExcept fun _ => within_keysOf
  | values => exact .ofExcept fun _ => within_valuesOf hfirst
  | explode => exact .ofExcept fun _ => within_explodeText
  | implode => exact .ofExcept fun _ => within_implodeItems
  | last => exact .pure (within_lastOf hfirst)
  | append => exact .ofExcept fun _ => within_appendTo htail hfirst
  | merge => exact .ofExcept fun _ => within_mergeOf hfirst hsecond
  | jsonDecode => exact .ofExcept fun _ => within_decode
  | jsonVerify | str | int | float | typeOf => exact .pure trivial
  | fileGetContents =>
    exact .bind htext fun _ _ _ _ => .task fun _ _ => .store (fun _ _ => rfl) fun _ _ =>
      .ofExcept fun _ => within_fileContents
  | async => exact mirrors_asyncValue hfirst
  | await => exact mirrors_awaitValue hfirst
  | makeChan =>
    refine .bind (P := Anything) (.ofExcept fun _ _ => trivial) fun W' _ capacity _ => ?_
    exact .update fun s hs => ⟨W', .refl W', rfl, hs.newChannel capacity, trivial⟩
  | send =>
    exact .bind (hchannel _) fun _ hW id _ => .bind (.send id (hsecond.mono hW)) fun _ _ _ _ =>
      .pure trivial
  | recv =>
    exact .bind (hchannel _) fun _ _ id _ => .bind (.request (r := .take id) trivial)
      fun _ _ _ hv => .pure (Value.within_getD hv trivial)
  | close => exact mirrors_close args

theorem mirrors_call (b : Builtin) (hargs : ∀ v ∈ args, v.Within W) :
    Script.Discreet own Value.Within W (b.call args) :=
  .ite (fun _ => mirrors_apply b hargs) fun _ => .fail _

end Builtin

/-! ## Services -/

namespace Service

variable {ref : ObjectRef} {method : String}

theorem mirrors_text (m : Method) (args : List Value) (i : Nat) :
    Script.Discreet own Anything W (Script.ofExcept (m.text args i)) :=
  .ofExcept fun _ _ => trivial

theorem mirrors_argument (m : Method) (hargs : ∀ v ∈ args, v.Within W) (i : Nat) :
    Script.Discreet own Value.Within W (Script.ofExcept (m.argument args i)) :=
  .ofExcept fun v hv => hargs v (Method.argument_mem hv)

theorem mirrors_unknown (m : Method) {Q : Realm → Value → Prop} :
    Script.Discreet own Q W (Script.ofExcept (m.unknown : Except Fault Value)) :=
  .ofExcept fun _ h => by cases h

/-! ### Collections -/

/-- A collection is no session and holds the same elements on both sides. -/
theorem elements_bags (href : W.Holds ref) (s : Store) :
    elements (s.bags W) ref = elements s ref := by
  simp only [elements, Store.fields_bags_of_holds s href]

theorem within_elements {s : Store} (hs : s.Within W) (href : W.Holds ref) :
    ∀ v ∈ elements s ref, v.Within W := by
  unfold elements
  split
  · rename_i items hitems
    exact Value.within_array.mp ((hs.fields ref href).get? _ hitems)
  · simp

theorem mirrors_setElements (href : W.Holds ref) {items : List Value}
    (hitems : ∀ v ∈ items, v.Within W) : Script.Discreet own Anything W (setElements ref items) :=
  .setField href _ (Value.within_array.mpr hitems)

/-- A stack does the same on both sides. -/
theorem mirrors_onStack (href : W.Holds ref) (hargs : ∀ v ∈ args, v.Within W) :
    Script.Discreet own Value.Within W (onStack ref method args) := by
  refine .store (fun s _ => by simp only [elements_bags href]) fun s hs => ?_
  have hitems := within_elements hs href
  have hlast : ((elements s ref).getLast?.getD Value.nil).Within W :=
    Value.within_getD (fun v hv => hitems v (List.mem_of_getLast? hv)) trivial
  dsimp only
  split
  · exact .bind (mirrors_setElements href hitems) fun _ _ _ _ => .pure trivial
  · refine .bind (mirrors_argument _ hargs 0) fun W' hW v hv => ?_
    have hpushed : ∀ w ∈ elements s ref ++ [v], w.Within W' :=
      List.forall_mem_append.mpr ⟨Value.all_mono hW hitems, by simpa using hv⟩
    exact .bind (mirrors_setElements (href.mono hW) hpushed) fun _ _ _ _ => .pure trivial
  · exact .bind (mirrors_setElements href fun v hv => hitems v (List.dropLast_subset _ hv))
      fun _ hW _ _ => .pure (hlast.mono hW)
  · exact .pure hlast
  · exact .pure trivial
  · exact .pure trivial
  · exact mirrors_unknown _

theorem mirrors_onQueue (href : W.Holds ref) (hargs : ∀ v ∈ args, v.Within W) :
    Script.Discreet own Value.Within W (onQueue ref method args) := by
  refine .store (fun s _ => by simp only [elements_bags href]) fun s hs => ?_
  have hitems := within_elements hs href
  dsimp only
  split
  · exact .bind (mirrors_setElements href hitems) fun _ _ _ _ => .pure trivial
  · refine .bind (mirrors_argument _ hargs 0) fun W' hW v hv => ?_
    have hpushed : ∀ w ∈ elements s ref ++ [v], w.Within W' :=
      List.forall_mem_append.mpr ⟨Value.all_mono hW hitems, by simpa using hv⟩
    exact .bind (mirrors_setElements (href.mono hW) hpushed) fun _ _ _ _ => .pure trivial
  · split
    · exact .pure trivial
    · rename_i v rest hrest
      rw [hrest, List.forall_mem_cons] at hitems
      exact .bind (mirrors_setElements href hitems.2) fun _ hW _ _ => .pure (hitems.1.mono hW)
  · exact .pure (Value.within_getD (fun v hv => hitems v (List.mem_of_mem_head? hv)) trivial)
  · exact .pure trivial
  · exact .pure trivial
  · exact mirrors_unknown _

/-! ### Mathematics and the system -/

theorem within_of_isNumeric {v : Value} (h : v.isNumeric) : v.Within W := by
  cases v <;> trivial

theorem within_rounded {m : Method} {round : Float → Float} {v : Value}
    (h : Math.rounded m round args = .ok v) : v.Within W := by
  simp only [Math.rounded, bind, Except.bind] at h
  split at h
  · cases h
  · rename_i number hnumber
    split at h <;> cases h
    · trivial
    · exact within_of_isNumeric (Method.number_eq_ok hnumber)

theorem within_absolute {m : Method} {v : Value} (h : Math.absolute m args = .ok v) :
    v.Within W := by
  simp only [Math.absolute, bind, Except.bind] at h
  split at h
  · cases h
  · split at h <;> cases h <;> trivial

theorem within_extreme {m : Method} {beats : Float → Float → Bool} {v : Value}
    (h : Math.extreme m beats args = .ok v) : v.Within W := by
  simp only [Math.extreme] at h
  split at h
  · cases h
  · split at h
    · exact within_of_isNumeric (obeys_best ‹_› h)
    · cases h

/-- The machine gives the same random numbers on both sides. -/
theorem mirrors_math : Script.Discreet own Value.Within W (Math.call method args) := by
  unfold Math.call
  dsimp only
  split
  · exact .pure trivial
  · refine .bind (P := Anything) (.ofExcept fun _ _ => trivial) fun W' _ bounds _ => ?_
    exact .update fun s hs => ⟨W', .refl W', rfl, hs.withAsked _, trivial⟩
  iterate 3 exact .ofExcept fun _ => within_rounded
  · exact .ofExcept fun _ => within_absolute
  iterate 2 exact .ofExcept fun _ => within_extreme
  · exact mirrors_unknown _

theorem mirrors_system (hargs : ∀ v ∈ args, v.Within W) :
    Script.Discreet own Value.Within W (System.call method args) := by
  unfold System.call
  dsimp only
  split
  · exact .pure trivial
  · refine .bind (mirrors_text _ _ _) fun W' hW name _ => .store (fun _ _ => rfl)
      fun s _ => .pure ?_
    unfold System.environment
    split
    · trivial
    · exact Value.within_argument (Value.all_mono hW hargs) trivial
  · exact .bind (mirrors_argument _ hargs 0) fun _ _ _ _ => .bind (.write _) fun _ _ _ _ =>
      .pure trivial
  · refine .bind (mirrors_text _ _ _) fun _ _ program _ => .store (fun _ _ => rfl) fun s _ => ?_
    refine .ite (fun _ => ?_) fun _ => .pure trivial
    refine .bind (P := Anything) (.ofExcept fun _ _ => trivial) fun W' _ _ _ => ?_
    exact .update fun s hs => ⟨W', .refl W', rfl, hs.withAsked _, trivial⟩
  · exact mirrors_unknown _

theorem mirrors_log : Script.Discreet own Value.Within W (System.log method) :=
  .ite (fun _ => .pure trivial) fun _ => mirrors_unknown _

/-! ### Requests and responses -/

/-- The request and the session are different globals. -/
theorem requestGlobal_ne : requestGlobal ≠ sessionGlobal := by decide

/-- The fields of the current request. -/
theorem fields_request {t : Task} (ht : t.Within W) {s : Store} (hs : s.Within W) :
    (injected? requestGlobal t).elim [] (s.bags W).fields =
        (injected? requestGlobal t).elim [] s.fields ∧
      Dict.Within W ((injected? requestGlobal t).elim [] s.fields) := by
  cases hrequest : injected? requestGlobal t with
  | none => exact ⟨rfl, Dict.within_nil⟩
  | some ref =>
    have href := holds_of_injected? ht requestGlobal_ne hrequest
    exact ⟨Store.fields_bags_of_holds s href, hs.fields ref href⟩

/-- The request is read alike, since it is no session. -/
theorem mirrors_onRequest (hargs : ∀ v ∈ args, v.Within W) :
    Script.Discreet own Value.Within W (onRequest method args) := by
  refine .storeTask (fun s t hs ht => ?_) fun s t hs ht => ?_
  · simp only [(fields_request ht hs).1]
  have hfields := (fields_request ht hs).2
  dsimp only
  split
  · exact .pure trivial
  · exact .bind (mirrors_text _ _ _) fun _ hW _ _ => .pure (Value.within_getD
      (hfields.mono hW).get? (Value.within_argument (Value.all_mono hW hargs) trivial))
  · exact .bind (mirrors_text _ _ _) fun _ _ _ _ => .pure trivial
  · exact .pure (Value.within_map.mpr hfields)
  · exact mirrors_unknown _

theorem within_withoutSession : (withoutSession method).Within W := by
  unfold withoutSession
  split
  · exact Value.within_map.mpr Dict.within_nil
  · trivial
  · trivial

/-- A change of a session is a new entry of its journal. -/
theorem mirrors_change {current : ObjectRef} (hseals : W.Seals current) {c : SessionChange}
    (hc : c.Within W) :
    Script.Mirrors own Anything W
      (Script.modifyStore (·.modifyFields current (· ++ [c.entry current.id])))
      (Script.modifyStore (·.modifyFields current c.apply)) := by
  refine .modifyStore fun s hs => ⟨Store.modifyFields_bags ?_, hs.addEntry hseals hc⟩
  rw [Journal.bagOf_of_seals hseals, Journal.bagOf_of_seals hseals,
    Journal.replay_concat hseals.not_holds hc]

/-- On a bag, the methods of a session do what they do on the journal that amounts to it. -/
theorem mirrors_onSession (hargs : ∀ v ∈ args, v.Within W) :
    Script.Mirrors own Value.Within W (onJournal own method args) (onSession method args) := by
  refine .ite (fun _ => .pure trivial) fun _ => .known fun t ht => ?_
  rw [show injected? sessionGlobal t = own from ht.session]
  cases own with
  | none => exact .pure within_withoutSession
  | some current =>
    have hseals := seals_of_injected? ht.within ht.session
    refine .look fun s hs => ?_
    rw [Store.fields_bags_of_seals s hseals]
    have hbag := Journal.within_replay hseals.not_holds (hs.journals current hseals)
    -- the two sides match on the name apart, so it is settled before either is opened
    by_cases hget : method = "get"
    · subst hget
      exact .bind (mirrors_text _ _ _) fun _ hW _ _ => .pure (Value.within_getD
        (hbag.mono hW).get? (Value.within_argument (Value.all_mono hW hargs) trivial))
    by_cases hput : method = "put"
    · subst hput
      refine .bind (mirrors_text _ _ _) fun _ hW key _ => ?_
      refine .bind (mirrors_argument _ (Value.all_mono hW hargs) 1) fun W' hW' v hv => ?_
      have hchange : (SessionChange.put key v).Within W' := hv
      exact .bind (mirrors_change ((hseals.mono hW).mono hW') hchange) fun _ _ _ _ => .pure trivial
    by_cases hhas : method = "has"
    · subst hhas
      exact .bind (mirrors_text _ _ _) fun _ _ _ _ => .pure trivial
    by_cases hforget : method = "forget"
    · subst hforget
      refine .bind (mirrors_text _ _ _) fun W' hW key _ => ?_
      have hchange : (SessionChange.forget key).Within W' := trivial
      exact .bind (mirrors_change (hseals.mono hW) hchange) fun _ _ _ _ => .pure trivial
    by_cases hall : method = "all"
    · subst hall
      exact .pure (Value.within_map.mpr hbag)
    have hunknown : Script.Mirrors (some current) Value.Within W
        (liftM (⟨"Session", method⟩ : Method).unknown) (liftM (⟨"Session", method⟩ : Method).unknown) :=
      mirrors_unknown _
    simpa only [hget, hput, hhas, hforget, hall] using hunknown

/-- The methods of sessions give values or faults, but no other signals. -/
theorem settle_onSession (method : String) (args : List Value) :
    (onSession method args).settle = onSession method args := by
  have task {next : Task → Script Value} (h : ∀ t, (next t).settle = next t) :
      (Script.task >>= next).settle = Script.task >>= next :=
    funext fun t => funext fun s => congrFun (congrFun (h t) t) s
  have store {next : Store → Script Value} (h : ∀ s, (next s).settle = next s) :
      (Script.store >>= next).settle = Script.store >>= next :=
    funext fun t => funext fun s => congrFun (congrFun (h s) t) s
  have given {α : Type} {x : Except Fault α} {next : α → Script Value}
      (h : ∀ a, (next a).settle = next a) :
      (Script.ofExcept x >>= next).settle = Script.ofExcept x >>= next := by
    cases x with
    | ok a => exact h a
    | error fault => rfl
  unfold onSession
  dsimp only
  split
  · rfl
  refine task fun t => ?_
  cases injected? sessionGlobal t with
  | none => rfl
  | some current =>
    refine store fun s => ?_
    split
    · exact given fun _ => rfl
    · exact given fun _ => given fun _ => rfl
    · exact given fun _ => rfl
    · exact given fun _ => rfl
    · rfl
    · rfl

/-! ### Responses -/

theorem mirrors_newRedirect {url : Store → String}
    (hurl : ∀ s, s.Within W → url (s.bags W) = url s) {flash : Dict Value}
    (hflash : Dict.Within W flash) :
    Script.Discreet own Value.Within W (Script.update fun s => newRedirect (url s) flash s) := by
  refine .update fun s hs => ⟨W ++ [none], W.grows_concat, ?_, ?_⟩
  · simp only [newRedirect, hurl s hs, Store.newObject_bags hs.size]
  · refine hs.newObject "RedirectResponse" ?_
    simpa [Dict.Within, Value.Within] using hflash

/-- A redirect back leads to the same address on both sides. -/
theorem mirrors_redirectBack : Script.Discreet own Value.Within W redirectBack := by
  refine .task fun t ht => mirrors_newRedirect (fun s _ => ?_) Dict.within_nil
  cases hrequest : injected? requestGlobal t with
  | none => simp only [referer, hrequest, Option.bind_none]
  | some ref =>
    have href := holds_of_injected? ht.within requestGlobal_ne hrequest
    simp only [referer, hrequest, Option.bind_some, Store.fields_bags_of_holds s href]

/-- An argument that stands for a map is read alike. -/
theorem map_bags (m : Method) (hargs : ∀ v ∈ args, v.Within W) (i : Nat) (s : Store) :
    m.map (s.bags W).fields args i = m.map s.fields args i := by
  cases harg : args[i]? with
  | none => simp only [Method.map, harg]
  | some v =>
    cases v with
    | object ref =>
      have href : W.Holds ref := hargs _ (List.mem_of_getElem? harg)
      simp only [Method.map, harg, Store.fields_bags_of_holds s href]
    | _ => simp only [Method.map, harg]

theorem within_map (m : Method) (hargs : ∀ v ∈ args, v.Within W) {i : Nat} {s : Store}
    (hs : s.Within W) {entries : Dict Value} (h : m.map s.fields args i = .ok entries) :
    Dict.Within W entries := by
  unfold Method.map at h
  split at h <;> cases h
  · exact Dict.within_nil
  · exact Dict.within_nil
  · rename_i hmem
    exact Value.within_map.mp (hargs _ (List.mem_of_getElem? hmem))
  · rename_i ref hmem
    exact hs.fields ref (hargs _ (List.mem_of_getElem? hmem))

theorem mirrors_onResponse (hargs : ∀ v ∈ args, v.Within W) :
    Script.Discreet own Value.Within W (onResponse method args) := by
  have hcode : (args[1]?.getD (Value.int 200)).Within W := Value.within_argument hargs trivial
  have hkind : (args[2]?.getD (Value.text "text/plain")).Within W :=
    Value.within_argument hargs trivial
  unfold onResponse
  dsimp only
  split
  · exact .pure trivial
  · refine .bind (mirrors_argument _ hargs 0) fun W' hW data hdata =>
      .pure (Value.within_map.mpr ?_)
    simp [Dict.Within, Value.Within, hdata, hcode.mono hW]
  · refine .bind (mirrors_argument _ hargs 0) fun W' hW data hdata => ?_
    have hraw : Dict.Within W' [("_type", .text "RAW"),
        ("content_type", args[2]?.getD (.text "text/plain")), ("data", data),
        ("status_code", args[1]?.getD (.int 200))] := by
      simp [Dict.Within, Value.Within, hdata, hcode.mono hW, hkind.mono hW]
    refine .ite (fun _ => ?_) fun _ => .pure (Value.within_map.mpr hraw)
    have hargs' := Value.all_mono hW hargs
    refine .store (fun s _ => by simp only [map_bags _ hargs']) fun s hs => ?_
    refine .bind (P := Dict.Within) (.ofExcept fun _ => within_map _ hargs' hs)
      fun _ hW' headers hheaders => .pure (Value.within_map.mpr ((hraw.mono hW').insert ?_ _))
    exact Value.within_map.mpr hheaders
  · exact .bind (mirrors_text _ _ _) fun _ _ url _ =>
      mirrors_newRedirect (fun _ _ => rfl) Dict.within_nil
  · exact mirrors_redirectBack
  · exact mirrors_unknown _

theorem mirrors_onRedirect : Script.Discreet own Value.Within W (onRedirect method args) := by
  unfold onRedirect
  dsimp only
  split
  · exact .pure trivial
  · exact .bind (mirrors_text _ _ _) fun _ _ url _ =>
      mirrors_newRedirect (fun _ _ => rfl) Dict.within_nil
  · exact mirrors_redirectBack
  · exact mirrors_unknown _

theorem mirrors_addTo (m : Method) (bucket : String) (href : W.Holds ref)
    (hargs : ∀ v ∈ args, v.Within W) :
    Script.Discreet own Value.Within W (addTo m bucket ref args) := by
  refine .bind (mirrors_text _ _ _) fun W hW key _ => ?_
  replace href := href.mono hW
  refine .bind (mirrors_argument _ (Value.all_mono hW hargs) 1) fun W hW v hv => ?_
  replace href := href.mono hW
  refine .store (fun s _ => by simp only [Store.fields_bags_of_holds s href]) fun s hs => ?_
  refine .bind (.setField href _ (Value.within_map.mpr ?_)) fun _ hW _ _ => .pure (href.mono hW)
  refine Dict.Within.insert ?_ hv key
  split
  · rename_i entries hentries
    exact Value.within_map.mp ((hs.fields ref href).get? _ hentries)
  · exact Dict.within_nil

theorem mirrors_onRedirectResponse (href : W.Holds ref) (hargs : ∀ v ∈ args, v.Within W) :
    Script.Discreet own Value.Within W (onRedirectResponse ref method args) := by
  unfold onRedirectResponse
  dsimp only
  split
  · exact .pure trivial
  · exact mirrors_addTo _ _ href hargs
  · exact mirrors_addTo _ _ href hargs
  · exact mirrors_unknown _

/-! ### Routes -/

theorem mirrors_addRoute (verb path : String) {handler : Value} (hhandler : handler.Within W) :
    Script.Discreet own Anything W (addRoute verb path handler) :=
  .modifyStore fun _ hs => ⟨rfl, hs.addRoute verb path hhandler⟩

theorem mirrors_addRoutes (path : String) {routes : List (String × Value)}
    (hroutes : ∀ route ∈ routes, route.2.Within W) :
    Script.Discreet own Anything W (addRoutes path routes) := by
  induction routes generalizing W with
  | nil => exact .pure trivial
  | cons route rest ih =>
    rw [List.forall_mem_cons] at hroutes
    exact .bind (mirrors_addRoute _ _ hroutes.1) fun _ hW _ _ =>
      ih fun route hroute => (hroutes.2 route hroute).mono hW

theorem mirrors_pushMiddleware (name : String) :
    Script.Discreet own Anything W (pushMiddleware name) :=
  .modifyStore fun _ hs => ⟨rfl, { hs with }⟩

theorem mirrors_popMiddleware : Script.Discreet own Anything W popMiddleware :=
  .modifyStore fun _ hs => ⟨rfl, { hs with }⟩

theorem mirrors_routeHandler (m : Method) (hargs : ∀ v ∈ args, v.Within W) :
    Script.Discreet own Value.Within W (Script.ofExcept (routeHandler m args)) := by
  refine .ofExcept fun v hv => ?_
  simp only [routeHandler, bind, Except.bind] at hv
  split at hv
  · cases hv
  · rename_i handler hhandler
    split at hv <;> split at hv <;> cases hv
    all_goals exact hargs _ (Method.argument_mem hhandler)

theorem mirrors_targetsFor (m : Method) (verbs : List String) (target : String) :
    Script.Discreet own (fun W routes => ∀ route ∈ routes, route.2.Within W) W
      (Script.ofExcept (targetsFor m verbs target)) := by
  refine .ofExcept fun routes hroutes => ?_
  unfold targetsFor at hroutes
  split at hroutes <;> cases hroutes
  · intro route hroute
    obtain ⟨_, -, rfl⟩ := List.mem_map.mp hroute
    trivial
  · intro route hroute
    obtain ⟨_, -, heq⟩ := List.mem_map.mp (List.of_mem_zip hroute).2
    rw [← heq]
    trivial

/-! ### All services -/

section Call

variable {ev ev' : Evaluator} (E : ev.Mirrors own ev')

include E

theorem mirrors_group (hargs : ∀ v ∈ args, v.Within W) :
    Script.Mirrors own Value.Within W (onRouter ev.invoke "group" args)
      (onRouter ev'.invoke "group" args) := by
  refine .bind (mirrors_text _ _ _) fun W hW name _ => ?_
  refine .bind (mirrors_argument _ (Value.all_mono hW hargs) 1) fun W _ body hbody => ?_
  refine .ite (fun _ => ?_) fun _ => .ofExcept fun _ h => by cases h
  refine .bind (mirrors_pushMiddleware name) fun W hW _ _ => ?_
  refine .bind (.capture (.settle (E.call (hbody.mono hW) (by simp))))
    fun W _ outcome houtcome => ?_
  exact .bind mirrors_popMiddleware fun W hW _ _ =>
    .bind (.release (Signal.ends_mono hW houtcome)) fun _ _ _ _ => .pure trivial

/-- A group calls the same body on both sides, and other methods change the routes alike. -/
theorem mirrors_onRouter (hargs : ∀ v ∈ args, v.Within W) :
    Script.Mirrors own Value.Within W (onRouter ev.invoke method args)
      (onRouter ev'.invoke method args) := by
  by_cases h : method = "group"
  · subst h
    exact mirrors_group E hargs
  · rw [onRouter_of_ne_group h ev'.invoke ev.invoke]
    unfold onRouter
    dsimp only
    split
    · exact .pure trivial
    -- the methods that add one route
    iterate 4
      exact .bind (mirrors_text _ _ _) fun _ hW _ _ =>
        .bind (mirrors_routeHandler _ (Value.all_mono hW hargs)) fun _ _ _ hv =>
          .bind (mirrors_addRoute _ _ hv) fun _ _ _ _ => .pure trivial
    · exact .bind (mirrors_text _ _ _) fun _ hW _ _ =>
        .bind (mirrors_routeHandler _ (Value.all_mono hW hargs)) fun _ _ _ hv =>
          .bind (mirrors_addRoutes _ (by simpa using hv)) fun _ _ _ _ => .pure trivial
    · exact .bind (mirrors_text _ _ _) fun _ _ _ _ => .bind (mirrors_text _ _ _) fun _ _ _ _ =>
        .bind (mirrors_text _ _ _) fun _ _ _ _ => .bind (mirrors_targetsFor _ _ _)
          fun _ _ _ hroutes => .bind (mirrors_addRoutes _ hroutes) fun _ _ _ _ => .pure trivial
    · exact .bind (mirrors_text _ _ _) fun _ _ _ _ => .bind (mirrors_pushMiddleware _)
        fun _ _ _ _ => .pure trivial
    · exact .bind mirrors_popMiddleware fun _ _ _ _ => .pure trivial
    · contradiction
    · exact mirrors_unknown _

omit E in
/-- Which service stands for which where sessions keep journals: the host stands for the session. -/
inductive StandsFor : Service → Service → Prop
  | same {service : Service} (hexternal : service ≠ .external) (hsession : service ≠ .session) :
    StandsFor service service
  | session : StandsFor .external .session

omit E in
/-- The services are the same on both sides, but for that of sessions. -/
theorem standsFor_get? (className : String) :
    Option.Rel StandsFor (Dict.get? className journaled) (Dict.get? className registry) := by
  by_cases hname : className = "Session"
  · have hsession : Dict.get? className registry = some .session := by
      subst hname
      decide
    have hhost : Dict.get? className journaled = some .external := by
      subst hname
      exact Dict.get?_insert_self ..
    rw [hsession, hhost]
    exact .some .session
  · rw [journaled, Dict.get?_insert_of_ne hname]
    cases hget : Dict.get? className registry with
    | none => exact .none
    | some service =>
      obtain hmem | hmem := Dict.mem_merge (Dict.mem_of_get? hget)
      · cases hmem
      · have hboth : service ≠ .external ∧ service ≠ .session := by
          simp only [List.mem_cons, Prod.mk.injEq, List.not_mem_nil, or_false] at hmem
          grind
        exact .some (.same hboth.1 hboth.2)

/-- Every service does the same on both sides, sessions included. -/
theorem mirrors_call {service service' : Service} (h : StandsFor service service')
    (className : String) (href : W.Holds ref) (hargs : ∀ v ∈ args, v.Within W) :
    Script.Mirrors own Value.Within W (service.call ev className ref method args)
      (service'.call ev' className ref method args) := by
  cases h with
  | session =>
    rw [Service.call, Service.call, ← settle_onSession method args]
    exact .settle (.congr (mirrors_onSession hargs) (E.host _ className ref method args))
  | same hexternal hsession =>
    cases service with
    | stack => exact mirrors_onStack href hargs
    | queue => exact mirrors_onQueue href hargs
    | math => exact mirrors_math
    | system => exact mirrors_system hargs
    | log => exact mirrors_log
    | request => exact mirrors_onRequest hargs
    | session => contradiction
    | response => exact mirrors_onResponse hargs
    | redirect => exact mirrors_onRedirect
    | redirectResponse => exact mirrors_onRedirectResponse href hargs
    | router => exact mirrors_onRouter E hargs
    | external => contradiction

end Call

end Service

end RouteScript
