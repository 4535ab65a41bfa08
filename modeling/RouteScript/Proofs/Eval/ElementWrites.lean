import RouteScript.Proofs.Eval.PathWrites

/-!
# Elements of variables

What goes wrong when an element is put into a variable itself. Nil becomes an empty array before an
index is found to be out of range, so that a failure leaves a trace. And nil becomes a container
without regard to the tag of the variable. No other assignment along a literal path evades the tags.
-/

namespace RouteScript

open Evaluator

variable {host : HostHandler} {n : Nat} {t t' : Task} {s s' : Store} {v : Value}

/-! ## Failures -/

/-- Whether a variable is nil, or is not bound and may become nil. -/
def Task.isVacant (word : String) (s : Store) (t : Task) : Bool :=
  match t.scope.get? word with
  | some value => value.isNil
  | none => (t.scope.tag? word).all (s.accepts · .nil)

/-- Into nil everything can be put except an element at an index other than zero. -/
theorem Value.place_prepared_nil {key : Option Value} {fault : Fault}
    (h : (Value.nil.prepared key).place key v = .error fault) :
    ∃ i : Int64, i ≠ 0 ∧ key = some (.int i) ∧ fault = .index (.outOfRange i 0) ∧
      Value.nil.prepared key = .array [] := by
  cases key with
  | none => cases h
  | some k =>
    cases k with
    | int i =>
      refine ⟨i, ?_, rfl, ?_, rfl⟩
      · rintro rfl
        cases h
      · simp only [prepared, place] at h
        split at h
        · cases h
        · split at h <;> cases h
          rfl
    | _ => cases h

/-- The list that takes the place of nil is empty, so that only index zero is in range. -/
theorem Value.place_nil_out_of_range {i : Int64} (hi : i ≠ 0) (v : Value) :
    (Value.nil.prepared (some (.int i))).place (some (.int i)) v =
      .error (.index (.outOfRange i 0)) := by
  have hend : ¬ (0 ≤ i ∧ i.toNatClampNeg = 0) :=
    fun h => hi (eq_of_toNatClampNeg_eq h.1 (by decide) h.2)
  simp only [prepared, place, List.length_nil, Nat.not_lt_zero, and_false, if_false, if_neg hend]

theorem Value.prepared_of_ne_nil {c : Value} (h : c ≠ .nil) (key : Option Value) :
    c.prepared key = c := by
  cases c with
  | nil => exact absurd rfl h
  | _ => rfl

/-- A variable is vacant if it is nil or not bound, provided that its declared type allows nil. -/
theorem Task.isVacant_iff {word : String}
    (h : t.scope.get? word = none → ∀ tag, t.scope.tag? word = some tag → s.accepts tag .nil) :
    t.isVacant word s ↔ (t.scope.get? word).getD .nil = .nil := by
  unfold isVacant
  cases hget : t.scope.get? word with
  | some value => cases value <;> simp [Value.isNil]
  | none => simpa [Option.all_eq_true] using h hget

theorem get?_of_ne_nil {word : String} (h : (t.scope.get? word).getD .nil ≠ .nil) :
    t.scope.get? word = some ((t.scope.get? word).getD .nil) :=
  (Option.getD_eq_iff.mp rfl).resolve_right fun hnone => h hnone.2.symm

/-- Rebinding a variable to the value that it has changes no binding. -/
theorem Scope.binding?_set_self {sc : Scope} {word : String} {value : Value}
    (h : sc.get? word = some value) (i : Nat) (name : String) :
    (sc.set word value).binding? i name = sc.binding? i name := by
  rw [binding?_set]
  split
  · rename_i hhome
    rw [hhome.1, hhome.2, ← get?_eq_binding?, h]
  · rfl

/-- A variable stays as it is when storing an element in it fails, unless it is vacant. -/
theorem yields_storeInVariable_signal {word : String} {key : Option Value} {x : Signal}
    (h : (storeInVariable word key v t s).Yields (.signal x) t' s') :
    s' = s ∧
    (¬ t.isVacant word s ∧ (t' = t ∨ ∃ c, t.scope.get? word = some c ∧ t' = t.set word c) ∨
      t.isVacant word s ∧ t' = t.set word (.array []) ∧
        ∃ i : Int64, i ≠ 0 ∧ key = some (.int i) ∧ x = .failed (.index (.outOfRange i 0))) := by
  obtain ⟨hget, tag, fault, htag, hrejects, hstored⟩ | ⟨haccepts, hstored⟩ :=
    storeInVariable_cases word key v t s
  · rw [hstored] at h
    obtain ⟨-, rfl, rfl⟩ := Run.yields_finished_iff.mp h
    exact ⟨rfl, .inl ⟨by simp [Task.isVacant, hget, htag, hrejects], .inl rfl⟩⟩
  · rw [hstored] at h
    obtain ⟨fault, hplace, hplaced⟩ | ⟨changed, -, hplaced⟩ | ⟨ref, field, -, hplaced⟩ :=
      placeInVariable_outcomes word key v t s
    · rw [hplaced] at h
      obtain ⟨hx, rfl, rfl⟩ := Run.yields_finished_iff.mp h
      refine ⟨rfl, ?_⟩
      rw [Task.isVacant_iff haccepts]
      by_cases hnil : (t.scope.get? word).getD .nil = .nil
      · rw [hnil] at hplace ⊢
        obtain ⟨i, hi, hkey, rfl, hprepared⟩ := Value.place_prepared_nil hplace
        cases hx
        exact .inr ⟨rfl, by rw [hprepared], i, hi, hkey, rfl⟩
      · rw [Value.prepared_of_ne_nil hnil]
        exact .inl ⟨hnil, .inr ⟨_, get?_of_ne_nil hnil, rfl⟩⟩
    · rw [hplaced] at h
      cases h
    · rw [hplaced] at h
      cases h

/-- At an index other than zero, an assignment to an element of nil fails and leaves an empty
array. -/
theorem halts_failed_assignment {word : String} {e : Expr} {i : Int64} (hi : i ≠ 0)
    (he : e.literalValue? = some (.int i)) (hvacant : t.isVacant word s) :
    Halts (fun n => (withLevels host n).assign (.index (.name word) (some e)) v t s)
      fun o t' s' => o = .signal (.failed (.index (.outOfRange i 0))) ∧
        t' = t.set word (.array []) ∧ s' = s := by
  have hkey : ∀ e' ∈ some e, e'.literalValue?.isSome := by simp [he]
  have hrests : Rests (fun n => Option.mapM (withLevels host n).expr (some e) t s) _ t s :=
    rests_key hkey
  obtain ⟨bound, hbound⟩ := hrests.halts
  have hstore : storeInVariable word (some (.int i)) v t s =
      .finished (.signal (.failed (.index (.outOfRange i 0)))) (t.set word (.array [])) s := by
    obtain ⟨hget, tag, fault, htag, hrejects, -⟩ | ⟨haccepts, hstored⟩ :=
      storeInVariable_cases word (some (.int i)) v t s
    · simp [Task.isVacant, hget, htag, hrejects] at hvacant
    · have hnil := (Task.isVacant_iff haccepts).mp hvacant
      simp only [hstored, placeInVariable_eq, hnil, Value.place_nil_out_of_range hi]
      rfl
  refine ⟨bound, _, _, _, fun n hn => ?_, rfl, rfl, rfl⟩
  change (Option.mapM (withLevels host n).expr (some e) t s).bind _ = _
  rw [hbound n hn, Option.bind_some, he]
  exact hstore

/-- An assignment to an element of a variable that fails leaves the store, all tags and all bindings
as they are, with one exception: a variable that is nil, or that is not bound and may become nil, is
an empty array afterwards. This happens at every index other than zero, and at no other. -/
theorem failed_element_assignment_bindings {word : String} {key : Option Expr}
    (hkey : ∀ e ∈ key, e.literalValue?.isSome) :
    (∀ n x t' s',
      ((withLevels host n).assign (.index (.name word) key) v t s).Yields (.signal x) t' s' →
      s' = s ∧ (∀ i name, t'.scope.tagAt? i name = t.scope.tagAt? i name) ∧
      (∀ i name, t'.scope.binding? i name =
        if t.isVacant word s ∧ i = t.scope.home word ∧ name = word then some (.array [])
        else t.scope.binding? i name) ∧
      (t.isVacant word s → ∃ i : Int64, i ≠ 0 ∧ key.bind Expr.literalValue? = some (.int i) ∧
        x = .failed (.index (.outOfRange i 0)))) ∧
    ∀ i : Int64, i ≠ 0 → key.bind Expr.literalValue? = some (.int i) → t.isVacant word s →
      Halts (fun n => (withLevels host n).assign (.index (.name word) key) v t s)
        fun o t' s' => o = .signal (.failed (.index (.outOfRange i 0))) ∧
          t' = t.set word (.array []) ∧ s' = s := by
  refine ⟨fun n x t' s' hrun => ?_, fun i hi hint hvacant => ?_⟩
  · have hstore := yields_assign_variable hkey (by simp) hrun
    obtain ⟨rfl, ⟨hnot, rfl | ⟨c, hget, rfl⟩⟩ | ⟨hvacant, rfl, hindex⟩⟩ :=
      yields_storeInVariable_signal hstore
    · exact ⟨rfl, fun _ _ => rfl, by simp [hnot], fun hvacant => absurd hvacant hnot⟩
    · refine ⟨rfl, t.scope.tagAt?_set word c, fun i name => ?_, fun hvacant => absurd hvacant hnot⟩
      rw [if_neg fun hvacant => hnot hvacant.1]
      exact Scope.binding?_set_self hget i name
    · refine ⟨rfl, t.scope.tagAt?_set word _, fun i name => ?_, fun _ => hindex⟩
      simp only [hvacant, true_and]
      exact t.scope.binding?_set word _ i name
  · obtain ⟨e, rfl, he⟩ := Option.bind_eq_some_iff.mp hint
    exact halts_failed_assignment hi he hvacant

/-- The failure of `$x[5] = 1` leaves an empty array in a variable that was not bound. -/
theorem failed_element_assignment_bindings_unbound :
    let e : Expr := .int 5
    let t' : Task := { scope := { globals := { vars := [("x", .array [])] } } }
    ((withLevels .none 2).assign (.index (.name "x") (some e)) (.int 1) {} {}).Yields
        (.signal (.failed (.index (.outOfRange 5 0)))) t' {} ∧
      Scope.binding? 0 "x" {} = none ∧ t'.scope.binding? 0 "x" = some (.array []) := by
  intro e t'
  have hrun : ((withLevels .none 2).assign (.index (.name "x") (some e)) (.int 1) {} {}).Yields
      (.signal (.failed (.index (.outOfRange 5 0)))) t' {} := .finished
  have hkey : ∀ e' ∈ some e, e'.literalValue?.isSome := by simp [e, Expr.literalValue?]
  have hfailed := (failed_element_assignment_bindings hkey).1 2 _ t' {} hrun
  exact ⟨hrun, rfl, hfailed.2.2.1 0 "x"⟩

/-! ## Tags -/

/-- Whether a value is an array or a map. -/
def Value.isContainer : Value → Bool
  | .array _ | .map _ => true
  | _ => false

def Tag.isForObjects : Tag → Bool
  | .object | .instance _ => true
  | _ => false

/-- A container remains one when an element is stored in it. -/
theorem Value.isContainer_of_place {c changed : Value} {key : Option Value}
    (h : c.place key v = .ok (.container changed)) : changed.isContainer := by
  unfold place at h
  split at h
  · cases h; rfl
  · split at h
    · cases h; rfl
    · split at h <;> cases h
      rfl
  all_goals cases h
  rfl

/-- A container that gets an element stays of its kind, unless it was nil. -/
theorem Value.isContainer_of_changedElement? {key : Option Value} {c changed : Value}
    (h : changedElement? key v c = some changed) :
    changed.isContainer ∧ (c = .nil ∨ changed.kind = c.kind) := by
  unfold changedElement? at h
  split at h
  · rename_i hplace
    cases h
    refine ⟨isContainer_of_place hplace, ?_⟩
    cases c with
    | nil => exact .inl rfl
    | _ => exact .inr (kind_of_place hplace)
  · cases h

namespace Store

/-- Tags ask a store for its classes only. -/
theorem accepts_congr (h : s'.classes = s.classes) (tag : Tag) (v : Value) :
    s'.accepts tag v = s.accepts tag v := by
  unfold accepts
  rw [h]

/-- Tags tell containers apart by their kinds. -/
theorem accepts_of_kind_eq {c c' : Value} (hc : c'.isContainer) (hkind : c'.kind = c.kind)
    (tag : Tag) : s.accepts tag c' = s.accepts tag c := by
  cases c' <;> simp [Value.isContainer] at hc <;> cases c <;> simp [Value.kind] at hkind <;>
    cases tag <;> rfl

/-- Where nil is accepted, so is a container, unless the tag is for objects. -/
theorem accepts_container {c : Value} (hc : c.isContainer) {tag : Tag} (h : s.accepts tag .nil) :
    s.accepts tag c = !tag.isForObjects := by
  cases c <;> simp [Value.isContainer] at hc <;> cases tag <;> first | rfl | cases h

end Store

namespace Path

/-- The variable of which a path takes an element first. -/
def rootElement? : Path → Option String
  | .index (.name word) _ => some word
  | .index path _ => path.rootElement?
  | .member path _ _ => path.rootElement?
  | .name _ | .this => none

theorem rootElement?_index {path : Path} (h : ∀ word, path ≠ .name word) (key : Option Expr) :
    (path.index key).rootElement? = path.rootElement? := by
  cases path with
  | name word => exact absurd rfl (h word)
  | this | index | member => rfl

/-- A path whose root is an element of a variable starts at that variable. -/
theorem root_of_rootElement? {path : Path} {word : String} (h : path.rootElement? = some word) :
    path.root = .name word := by
  induction path with
  | name | this => cases h
  | index path key ih =>
    cases path with
    | name => cases h; rfl
    | this | index | member => exact ih h
  | member path property access ih => exact ih h

/-- How an assignment to a literal path may change the variables: it ends in an object and changes
none of them, it assigns a value to a variable if its tag accepts that, or it puts a value into the
container in a variable. -/
inductive Changes (t : Task) (s : Store) (path : Path) (t' : Task) : Prop
  | kept (hbindings : ∀ i name, t'.scope.binding? i name = t.scope.binding? i name)
    (htags : ∀ i name, t'.scope.tagAt? i name = t.scope.tagAt? i name)
    (hroot : ∀ word, path.rootElement? = some word → (t.scope.get? word).getD .nil ≠ .nil)
  | assigned (word : String) (value : Value) (hroot : path.rootElement? = none)
    (haccepts : ∀ tag, t.scope.tag? word = some tag → s.accepts tag value)
    (ht : t' = t.set word value)
  | placed (word : String) (value : Value) (hroot : path.rootElement? = some word)
    (hnil : t.scope.get? word = none → ∀ tag, t.scope.tag? word = some tag → s.accepts tag .nil)
    (hcontainer : value.isContainer)
    (hkind : (t.scope.get? word).getD .nil = .nil ∨
      value.kind = ((t.scope.get? word).getD .nil).kind)
    (ht : t' = t.set word value)

theorem Changes.congr {path path' : Path} (h : path.Changes t s t')
    (hroot : path'.rootElement? = path.rootElement?) : path'.Changes t s t' := by
  cases h with
  | kept hbindings htags hne => exact .kept hbindings htags (hroot ▸ hne)
  | assigned word value hnone haccepts ht => exact .assigned word value (hroot ▸ hnone) haccepts ht
  | placed word value hsome hnil hcontainer hkind ht =>
    exact .placed word value (hroot ▸ hsome) hnil hcontainer hkind ht

/-- A variable that is nil leads to no object. -/
theorem ne_nil_of_readsAs_object {path : Path} {ref : ObjectRef}
    (h : path.expr.ReadsAs host t s (.ok (.object ref))) {word : String}
    (hroot : path.rootElement? = some word) : (t.scope.get? word).getD .nil ≠ .nil := by
  intro hnil
  have hbare : ∀ n, ((withLevels host n).expr path.root.expr t s).Delivers (·.isBare) := by
    rw [root_of_rootElement? hroot]
    intro n
    have hread : (Expr.name word).ReadsAs host t s (.ok (lookup word t s)) :=
      Expr.readsAs_name word
    obtain hn | hn := hread.before n
    · rw [Path.expr, hn]
      exact .finished fun v hv => by cases hv; exact isBare_lookup hnil
    · rw [Path.expr, hn]
      exact .finished (by simp)
  obtain ⟨bound, hbound⟩ := h.halts
  have hobject := delivers_isBare hbare bound
  rw [hbound bound (Nat.le_refl _)] at hobject
  cases hobject.of_yields .finished

/-- An assignment to a literal path that succeeds registers no class, and changes at most one
variable. -/
theorem IsLiteral.changes {path : Path} (hpath : path.IsLiteral)
    (hrun : ((withLevels host n).assign path.expr v t s).Yields (.value ()) t' s') :
    s'.classes = s.classes ∧ path.Changes t s t' := by
  induction path generalizing v with
  | name word =>
    obtain ⟨fault, hassign⟩ | ⟨haccepts, hassign⟩ := Script.assignVariable_cases word v t s
    · rw [Path.expr, assign, hassign] at hrun
      cases hrun
    · rw [Path.expr, assign, hassign] at hrun
      obtain ⟨-, rfl, rfl⟩ := Run.yields_finished_iff.mp hrun
      exact ⟨rfl, .assigned word v rfl haccepts rfl⟩
  | this => cases hrun
  | index path key ih =>
    by_cases hname : ∃ word, path = .name word
    · obtain ⟨word, rfl⟩ := hname
      have hstore := yields_assign_variable hpath.2 (by simp) hrun
      obtain ⟨hnil, ⟨changed, hchanged, rfl, rfl⟩ | ⟨ref, field, hc, rfl, rfl⟩⟩ :=
        yields_storeInVariable hstore
      · obtain ⟨hcontainer, hkind⟩ := Value.isContainer_of_changedElement? hchanged
        exact ⟨rfl, .placed word changed rfl hnil hcontainer hkind rfl⟩
      · have hne : (t.scope.get? word).getD .nil ≠ .nil := by simp [hc]
        have hbindings := Scope.binding?_set_self (get?_of_ne_nil hne)
        refine ⟨rfl, .kept hbindings (t.scope.tagAt?_set word _) fun word' hword' => ?_⟩
        cases hword'
        exact hne
    · have hne : ∀ word, path ≠ .name word := fun word heq => hname ⟨word, heq⟩
      obtain ⟨c, hc, hput⟩ := yields_assign_index hpath.1 hne hpath.2 hrun
      have hroot := rootElement?_index hne key
      obtain ⟨changed, -, hassign⟩ | ⟨ref, field, rfl, rfl, rfl⟩ := yields_putElement hput
      · obtain ⟨hclasses, hchanges⟩ := ih hpath.1 hassign
        exact ⟨hclasses, hchanges.congr hroot⟩
      · refine ⟨rfl, .kept (fun _ _ => rfl) (fun _ _ => rfl) fun word hword => ?_⟩
        exact ne_nil_of_readsAs_object hc (hroot.symm.trans hword)
  | member path property access ih =>
    have hliteral : path.IsLiteral := hpath
    obtain ⟨c, hc, hput⟩ := yields_assign_member hliteral hrun
    obtain ⟨changed, -, hassign⟩ | ⟨ref, rfl, rfl, rfl⟩ := yields_putMember hput
    · obtain ⟨hclasses, hchanges⟩ := ih hpath hassign
      exact ⟨hclasses, hchanges.congr rfl⟩
    · exact ⟨rfl, .kept (fun _ _ => rfl) (fun _ _ => rfl) fun _ => ne_nil_of_readsAs_object hc⟩

end Path

/-- Whether a variable is nil and has a tag for objects. -/
def Task.LacksObject (word : String) (t : Task) : Prop :=
  (t.scope.get? word).getD .nil = .nil ∧ ∃ tag, t.scope.tag? word = some tag ∧ tag.isForObjects

/-- A container that is put into a variable in place of nil, or of a container of its kind, is
accepted unless the variable is for objects. -/
theorem accepts_placed_iff {word : String} {value : Value} (ht : t.scope.Accepted s)
    (hnil : t.scope.get? word = none → ∀ tag, t.scope.tag? word = some tag → s.accepts tag .nil)
    (hcontainer : value.isContainer)
    (hkind : (t.scope.get? word).getD .nil = .nil ∨
      value.kind = ((t.scope.get? word).getD .nil).kind) :
    (∀ tag, t.scope.tag? word = some tag → s.accepts tag value) ↔ ¬ t.LacksObject word := by
  by_cases hc : (t.scope.get? word).getD .nil = .nil
  · have haccepts : ∀ tag, t.scope.tag? word = some tag →
        s.accepts tag value = !tag.isForObjects := by
      intro tag htag
      obtain hget | ⟨hget, -⟩ := Option.getD_eq_iff.mp hc
      · exact Store.accepts_container hcontainer (ht.of_get? htag hget)
      · exact Store.accepts_container hcontainer (hnil hget tag htag)
    constructor
    · rintro hvalue ⟨-, tag, htag, hobjects⟩
      have hrejects := haccepts tag htag
      simp [hvalue tag htag, hobjects] at hrejects
    · intro hnot tag htag
      rw [haccepts tag htag]
      by_contra hobjects
      exact hnot ⟨hc, tag, htag, by simpa using hobjects⟩
  · refine iff_of_true (fun tag htag => ?_) fun hlacks => hc hlacks.1
    rw [Store.accepts_of_kind_eq hcontainer (hkind.resolve_left hc)]
    exact ht.of_get? htag (get?_of_ne_nil hc)

/-- From variables that their tags accept, an assignment to a literal path that succeeds leads to
variables that their tags accept, unless it makes a container of nil in a variable whose tag is for
objects. -/
theorem element_assignment_keeps_tags {path : Path} (hpath : path.IsLiteral)
    (ht : t.scope.Accepted s)
    (hrun : ((withLevels host n).assign path.expr v t s).Yields (.value ()) t' s') :
    t'.scope.Accepted s' ↔ ∀ word, path.rootElement? = some word → ¬ t.LacksObject word := by
  obtain ⟨hclasses, hchanges⟩ := hpath.changes hrun
  rw [Scope.accepted_congr (Store.accepts_congr hclasses)]
  cases hchanges with
  | kept hbindings htags hroot =>
    refine iff_of_true (fun i name tag value htag hvalue => ?_) fun word hword hlacks => ?_
    · exact ht i name tag value (htags i name ▸ htag) (hbindings i name ▸ hvalue)
    · exact hroot word hword hlacks.1
  | assigned word value hroot haccepts ht' =>
    subst ht'
    exact iff_of_true ((ht.set_iff word value).mpr haccepts) (by simp [hroot])
  | placed word value hroot hnil hcontainer hkind ht' =>
    subst ht'
    simp only [hroot, Option.some.injEq, forall_eq']
    exact (ht.set_iff word value).trans (accepts_placed_iff ht hnil hcontainer hkind)

/-- After `object $o`, the assignment `$o[0] = 1` leaves an array in the variable. -/
theorem element_assignment_keeps_tags_filled :
    let path : Path := .index (.name "o") (some (.int 0))
    let t : Task := { scope := { globals := { vars := [("o", .nil)], tags := [("o", .object)] } } }
    let t' : Task := t.set "o" (.array [.int 1])
    t.scope.Accepted {} ∧
      ((withLevels .none 2).assign path.expr (.int 1) t {}).Yields (.value ()) t' {} ∧
      ¬ t'.scope.Accepted {} := by
  intro path t t'
  have hpath : path.IsLiteral := ⟨trivial, by simp [Expr.literalValue?]⟩
  have ht : t.scope.Accepted {} := by
    have hempty : Scope.Accepted {} { globals := { tags := [("o", .object)] } } := by
      intro i name tag value _ hvalue
      cases i <;> cases hvalue
    exact (hempty.set_iff "o" .nil).mpr fun tag htag => by cases htag; rfl
  have hrun : ((withLevels .none 2).assign path.expr (.int 1) t {}).Yields (.value ()) t' {} :=
    .finished
  refine ⟨ht, hrun, fun ht' => ?_⟩
  exact (element_assignment_keeps_tags hpath ht hrun).mp ht' "o" rfl ⟨rfl, .object, rfl, rfl⟩

end RouteScript
