import RouteScript.Proofs.Eval.ElementWrites

/-!
# Reading after writing

An assignment to a variable, or to a place inside the containers that it holds, comes to one update
of the value of the variable. From this it follows what can be read afterwards: the new value at its
place, and at all places beside it what was there before. Members of classes are an exception, since
reading them makes an object and runs code that may depend on anything.
-/

namespace RouteScript

open Evaluator

/-! ## Elements -/

namespace Value

variable {i j : Int64} {items : List Value} {v : Value}

/-- The index that was written reads as the new value. -/
theorem nth?_set_self (hi : 0 ≤ i) (hlt : i.toNatClampNeg < items.length) (v : Value) :
    nth? (items.set i.toNatClampNeg v) i = some v := by
  simp [nth?, hi, hlt]

/-- Other indices read as before, also those out of range. -/
theorem nth?_set_of_ne (hi : 0 ≤ i) (hj : j ≠ i) (v : Value) (items : List Value) :
    nth? (items.set i.toNatClampNeg v) j = nth? items j := by
  unfold nth?
  split
  · rename_i hpos
    have hne : i.toNatClampNeg ≠ j.toNatClampNeg :=
      fun heq => hj (eq_of_toNatClampNeg_eq hpos hi heq.symm)
    rw [List.getElem?_set_ne hne]
  · rfl

/-- The index right after the last one reads as the appended value. -/
theorem nth?_push_self (hi : 0 ≤ i) (hlength : i.toNatClampNeg = items.length) (v : Value) :
    nth? (items ++ [v]) i = some v := by
  simp [nth?, hi, hlength]

theorem nth?_push_of_ne (hi : 0 ≤ i) (hlength : i.toNatClampNeg = items.length) (hj : j ≠ i)
    (v : Value) : nth? (items ++ [v]) j = nth? items j := by
  unfold nth?
  split
  · rename_i hpos
    have hne : j.toNatClampNeg ≠ items.length :=
      fun heq => hj (eq_of_toNatClampNeg_eq hpos hi (heq.trans hlength.symm))
    obtain hlt | hgt := Nat.lt_or_gt_of_ne hne
    · rw [List.getElem?_append_left hlt]
    · rw [List.getElem?_eq_none (by simpa using Nat.succ_le_of_lt hgt),
        List.getElem?_eq_none (Nat.le_of_lt hgt)]
  · rfl

end Value

/-! ## Changes of containers -/

namespace Selector

variable {σ τ : Selector} {v c changed : Value}

def change? (v c : Value) : Selector → Option Value
  | .index key => changedElement? (some key.value) v c
  | .member property access => changedMember? property access v c

/-- Two selectors select different elements of a container. -/
def Separates (σ τ : Selector) : Value → Prop
  | .array _ => τ.key ≠ σ.key
  | .map _ => τ.key.display ≠ σ.key.display
  | _ => False

/-- How an array or a map changes in one element. Nil counts as empty. -/
inductive Changed (σ : Selector) (v : Value) : Value → Value → Prop
  | array {key : Literal} {i : Int64} {c : Value} {items items' : List Value} (hσ : σ = .index key)
    (hkey : key.value = .int i) (hc : c = .array items ∨ c = .nil ∧ items = [])
    (hself : Value.nth? items' i = some v)
    (hother : ∀ j, j ≠ i → Value.nth? items' j = Value.nth? items j) :
    Changed σ v c (.array items')
  | map {text : String} {c : Value} {entries : Dict Value} (htext : text = σ.key.display)
    (hc : c = .map entries ∨ c = .nil ∧ entries = []) :
    Changed σ v c (.map (Dict.insert text v entries))

@[simp] theorem display_key_member (property : String) (access : Access) :
    (member property access).key.display = property := by
  simp [key, Value.display]

/-- Indices and members of maps are the same. -/
@[simp] theorem read_map (s : Store) (entries : Dict Value) (σ : Selector) :
    σ.read s (.map entries) = .ok ((Dict.get? σ.key.display entries).getD .nil) := by
  cases σ with
  | index key => rfl
  | member property access => rw [display_key_member]; rfl

/-- Storing an element changes what its key reads as, and nothing else in the container. -/
theorem changed_of_place {key : Literal}
    (h : c.place (some key.value) v = .ok (.container changed)) :
    (Selector.index key).Changed v c changed := by
  cases c with
  | array items =>
    cases hkey : key.value with
    | int i =>
      simp only [hkey, Value.place] at h
      split at h
      · rename_i hlt
        cases h
        exact .array rfl hkey (.inl rfl) (Value.nth?_set_self hlt.1 hlt.2 v)
          fun j hj => Value.nth?_set_of_ne hlt.1 hj v items
      · split at h
        · rename_i hlength
          cases h
          exact .array rfl hkey (.inl rfl) (Value.nth?_push_self hlength.1 hlength.2 v)
            fun j hj => Value.nth?_push_of_ne hlength.1 hlength.2 hj v
        · cases h
    | _ =>
      rw [hkey] at h
      cases h
  | map entries =>
    cases h
    exact .map rfl (.inl rfl)
  | _ => cases h

/-- Nil changes like the empty container that it becomes. -/
theorem Changed.of_prepared {key : Option Value} (h : σ.Changed v (c.prepared key) changed) :
    σ.Changed v c changed := by
  cases c with
  | nil =>
    have hempty : Value.nil.prepared key = .array [] ∨ Value.nil.prepared key = .map [] := by
      rcases key with _ | key
      · exact .inl rfl
      · cases key with
        | int i => exact .inl rfl
        | _ => exact .inr rfl
    generalize Value.nil.prepared key = c at h hempty
    cases h with
    | array hσ hkey hc hself hother =>
      obtain rfl | rfl := hempty
      · obtain hc | hc := hc
        · cases hc
          exact .array hσ hkey (.inr ⟨rfl, rfl⟩) hself hother
        · cases hc.1
      · simp at hc
    | map htext hc =>
      obtain rfl | rfl := hempty
      · simp at hc
      · obtain hc | hc := hc
        · cases hc
          exact .map htext (.inr ⟨rfl, rfl⟩)
        · cases hc.1
  | _ => exact h

/-- So does a change through any selector. -/
theorem changed_of_change? (h : σ.change? v c = some changed) : σ.Changed v c changed := by
  cases σ with
  | index key =>
    change changedElement? (some key.value) v c = some changed at h
    unfold changedElement? at h
    split at h
    · rename_i hplace
      cases h
      exact (changed_of_place hplace).of_prepared
    · cases h
  | member property access =>
    change changedMember? property access v c = some changed at h
    unfold changedMember? at h
    split at h
    · cases h
    · split at h
      · cases h
        exact .map (display_key_member ..).symm (.inl rfl)
      · cases h
        have hmap : Value.map [(property, v)] = .map (Dict.insert property v []) := rfl
        exact hmap ▸ .map (display_key_member ..).symm (.inr ⟨rfl, rfl⟩)
      · cases h

theorem isContainer_of_change? (h : σ.change? v c = some changed) : changed.isContainer := by
  cases changed_of_change? h <;> rfl

/-- Of things that are no data, only nil becomes a container. -/
theorem eq_nil_of_change? (hc : c.isBare) (h : σ.change? v c = some changed) : c = .nil := by
  cases changed_of_change? h with
  | array hσ hkey hitems hself hother =>
    obtain rfl | hnil := hitems
    · cases hc
    · exact hnil.1
  | map htext hentries =>
    obtain rfl | hnil := hentries
    · cases hc
    · exact hnil.1

/-- Only a member of a class makes an object. -/
theorem not_isOfClass_of_ne (h : ∀ className, c ≠ .classRef className) (τ : Selector) :
    ¬ τ.isOfClass c := by
  cases τ with
  | index key => exact id
  | member property access =>
    rintro ⟨className, hc⟩
    exact h className hc

theorem not_isOfClass_of_isContainer (h : c.isContainer) (τ : Selector) : ¬ τ.isOfClass c := by
  refine not_isOfClass_of_ne ?_ τ
  rintro className rfl
  cases h

theorem not_isOfClass_of_change? (h : σ.change? v c = some changed) (τ : Selector) :
    ¬ τ.isOfClass c := by
  refine not_isOfClass_of_ne ?_ τ
  rintro className rfl
  cases eq_nil_of_change? rfl h

/-- A container that gets a value at a selector has it there. -/
theorem read_of_change? (h : σ.change? v c = some changed) (s : Store) :
    σ.read s changed = .ok v := by
  cases changed_of_change? h with
  | array hσ hkey hc hself hother =>
    subst hσ
    simp [read, hkey, Value.element, Value.isIndexable, Value.element?, hself]
  | map htext hc => simp [htext]

/-- Before a container changes at a selector, it can be read there. -/
theorem exists_read_of_change? (h : σ.change? v c = some changed) (s : Store) :
    ∃ inner, σ.read s c = .ok inner := by
  cases changed_of_change? h with
  | array hσ hkey hc hself hother =>
    subst hσ
    obtain rfl | ⟨rfl, -⟩ := hc <;> simp [read, hkey, Value.element, Value.isIndexable]
  | map htext hc =>
    obtain rfl | ⟨rfl, -⟩ := hc
    · exact ⟨_, read_map s _ σ⟩
    · cases σ <;> exact ⟨.nil, rfl⟩

/-- A change of a container does not show at other elements. -/
theorem read_of_separates (h : σ.change? v c = some changed) (hseparates : σ.Separates τ c)
    (s : Store) : τ.read s changed = τ.read s c := by
  cases changed_of_change? h with
  | array hσ hkey hc hself hother =>
    subst hσ
    obtain rfl | ⟨rfl, -⟩ := hc
    · cases τ with
      | member property access => rfl
      | index other =>
        change other.value ≠ _ at hseparates
        simp only [read]
        cases hvalue : other.value with
        | int j =>
          have hj := hother j fun heq => hseparates (by simp [hvalue, heq, key, hkey])
          simp [Value.element, Value.isIndexable, Value.element?, hj]
        | _ => rfl
    · exact hseparates.elim
  | map htext hc =>
    obtain rfl | ⟨rfl, -⟩ := hc
    · subst htext
      rw [read_map, read_map, Dict.get?_insert_of_ne hseparates]
    · exact hseparates.elim

end Selector

/-! ## Updates along selectors -/

namespace Value

variable {s : Store} {selectors : List Selector} {σ : Selector} {c d v final : Value}

/-- What can be read from a value along selectors if no member of a class is among it. -/
def readVia (s : Store) : List Selector → Value → Except Fault Value
  | [], c => .ok c
  | σ :: rest, c => σ.read s c >>= readVia s rest

def updated? (s : Store) : List Selector → Value → Value → Option Value
  | [], _, v => some v
  | σ :: rest, c, v =>
    match σ.read s c with
    | .ok inner => (updated? s rest inner v).bind (σ.change? · c)
    | .error _ => none

/-- Reading along selectors goes one step and then the rest. -/
theorem readVia_cons_iff {rest : List Selector} :
    readVia s (σ :: rest) c = .ok d ↔
      ∃ inner, σ.read s c = .ok inner ∧ readVia s rest inner = .ok d := by
  rw [readVia]
  cases σ.read s c with
  | ok inner => simp [bind, Except.bind]
  | error fault => simp [bind, Except.bind]

/-- An update goes down to the place and puts the changed parts back on its way up. -/
theorem updated?_cons_iff {rest : List Selector} :
    updated? s (σ :: rest) c v = some final ↔ ∃ inner, σ.read s c = .ok inner ∧
      ∃ w, updated? s rest inner v = some w ∧ σ.change? w c = some final := by
  rw [updated?]
  cases σ.read s c with
  | ok inner => simp [Option.bind_eq_some_iff]
  | error fault => simp

/-- A path may be read in two legs. -/
theorem readVia_append {rest : List Selector} (h : readVia s selectors c = .ok d) :
    readVia s (selectors ++ rest) c = readVia s rest d := by
  induction selectors generalizing c with
  | nil =>
    cases h
    rfl
  | cons σ selectors ih =>
    obtain ⟨inner, hread, hrest⟩ := readVia_cons_iff.mp h
    simpa [readVia, hread, bind, Except.bind] using ih hrest

/-- What has been put into a value is read at its place. -/
theorem readVia_updated? (h : updated? s selectors c v = some final) :
    readVia s selectors final = .ok v := by
  induction selectors generalizing c final with
  | nil =>
    cases h
    rfl
  | cons σ rest ih =>
    obtain ⟨inner, -, w, hw, hchange⟩ := updated?_cons_iff.mp h
    exact readVia_cons_iff.mpr ⟨w, Selector.read_of_change? hchange s, ih hw⟩

/-- A value is put into another one by putting it into a part, and that into the whole. -/
theorem updated?_append {rest : List Selector} (h : readVia s selectors c = .ok d) :
    updated? s (selectors ++ rest) c v =
      (updated? s rest d v).bind fun w => updated? s selectors c w := by
  induction selectors generalizing c with
  | nil =>
    cases h
    simp [updated?]
  | cons σ selectors ih =>
    obtain ⟨inner, hread, hrest⟩ := readVia_cons_iff.mp h
    simp only [List.cons_append, updated?, hread, ih hrest, Option.bind_assoc]

/-- At the end of the first selectors, an update shows as the change of one element. -/
theorem readVia_of_updated? {before after : List Selector}
    (h : updated? s (before ++ σ :: after) c v = some final) (hread : readVia s before c = .ok d) :
    ∃ w changed, σ.change? w d = some changed ∧ readVia s before final = .ok changed := by
  rw [updated?_append hread, Option.bind_eq_some_iff] at h
  obtain ⟨changed, hchanged, hfinal⟩ := h
  obtain ⟨inner, -, w, -, hchange⟩ := updated?_cons_iff.mp hchanged
  exact ⟨w, changed, hchange, readVia_updated? hfinal⟩

theorem updated?_singleton (hchange : σ.change? v c = some final) :
    updated? s [σ] c v = some final := by
  obtain ⟨inner, hread⟩ := Selector.exists_read_of_change? hchange s
  exact updated?_cons_iff.mpr ⟨inner, hread, v, rfl, hchange⟩

end Value

/-! ## Reading along selectors -/

namespace Path

variable {host : HostHandler} {t t' : Task} {s : Store} {path : Path}

/-- Whatever is read on the way along the selectors is in `P`, together with the selector that
follows. -/
def Meets (host : HostHandler) (t : Task) (s : Store) (P : Value → Selector → Prop) :
    Path → List Selector → Prop
  | _, [] => True
  | path, σ :: rest =>
    (∀ c, path.expr.ReadsAs host t s (.ok c) → P c σ) ∧ Meets host t s P (path.select σ) rest

theorem Meets.mono {P Q : Value → Selector → Prop} (hPQ : ∀ c σ, P c σ → Q c σ)
    {selectors : List Selector} (h : path.Meets host t s P selectors) :
    path.Meets host t s Q selectors := by
  induction selectors generalizing path with
  | nil => trivial
  | cons σ rest ih => exact ⟨fun c hc => hPQ c σ (h.1 c hc), ih h.2⟩

/-- What is met along a path is met along its first leg and then along the second. -/
theorem meets_append {P : Value → Selector → Prop} {selectors rest : List Selector} :
    path.Meets host t s P (selectors ++ rest) ↔
      path.Meets host t s P selectors ∧ (path.via selectors).Meets host t s P rest := by
  induction selectors generalizing path with
  | nil => simp [Meets, via]
  | cons σ selectors ih => simp [Meets, via, ih, and_assoc]

theorem via_append (path : Path) (selectors rest : List Selector) :
    path.via (selectors ++ rest) = (path.via selectors).via rest :=
  List.foldl_append

theorem via_cons_ne_name (path : Path) (σ : Selector) (rest : List Selector) (word : String) :
    path.via (σ :: rest) ≠ .name word := by
  induction rest generalizing path σ with
  | nil => cases σ <;> simp [via, select]
  | cons τ rest ih => exact ih (path.select σ) τ

/-- What can be read from the value of a path can be read along it. -/
theorem readsAs_via {selectors : List Selector} {c v : Value}
    (h : path.expr.ReadsAs host t s (.ok c)) (hread : c.readVia s selectors = .ok v) :
    (path.via selectors).expr.ReadsAs host t s (.ok v) := by
  induction selectors generalizing path c with
  | nil =>
    cases hread
    exact h
  | cons σ rest ih =>
    obtain ⟨inner, hinner, hrest⟩ := Value.readVia_cons_iff.mp hread
    have hclass : ¬ σ.isOfClass c := by
      refine Selector.not_isOfClass_of_ne ?_ σ
      rintro className rfl
      cases σ <;> cases hinner
    have hselect := readsAs_select h hclass
    rw [hinner] at hselect
    exact ih hselect hrest

/-- A fault stays the fault of all that follows. -/
theorem readsAs_via_error {fault : Fault} (h : path.expr.ReadsAs host t s (.error fault))
    (selectors : List Selector) : (path.via selectors).expr.ReadsAs host t s (.error fault) := by
  induction selectors generalizing path with
  | nil => exact h
  | cons σ rest ih => exact ih (readsAs_select_error h σ)

/-- What a path reads as can be read off its first value, as long as it meets no class. -/
theorem readVia_of_readsAs {selectors : List Selector} {c v : Value}
    (h : path.expr.ReadsAs host t s (.ok c))
    (hmeets : path.Meets host t s (fun c σ => ¬ σ.isOfClass c) selectors)
    (hvia : (path.via selectors).expr.ReadsAs host t s (.ok v)) :
    c.readVia s selectors = .ok v := by
  induction selectors generalizing path c with
  | nil => exact h.unique hvia
  | cons σ rest ih =>
    have hselect := readsAs_select h (hmeets.1 c h)
    cases hread : σ.read s c with
    | error fault =>
      rw [hread] at hselect
      cases (readsAs_via_error hselect rest).unique hvia
    | ok inner =>
      rw [hread] at hselect
      exact Value.readVia_cons_iff.mpr ⟨inner, hread, ih hselect hmeets.2 hvia⟩

/-- What two tasks read in the same way leads them to the same, as long as no member of a class is
taken. -/
theorem exists_readsAs_via {selectors : List Selector} {x : Except Fault Value}
    (h : path.expr.ReadsAs host t s x) (h' : path.expr.ReadsAs host t' s x)
    (hmeets : path.Meets host t s (fun c σ => ¬ σ.isOfClass c) selectors) :
    ∃ y, (path.via selectors).expr.ReadsAs host t s y ∧
      (path.via selectors).expr.ReadsAs host t' s y := by
  induction selectors generalizing path x with
  | nil => exact ⟨x, h, h'⟩
  | cons σ rest ih =>
    cases x with
    | error fault => exact ih (readsAs_select_error h σ) (readsAs_select_error h' σ) hmeets.2
    | ok c =>
      have hclass := hmeets.1 c h
      exact ih (readsAs_select h hclass) (readsAs_select h' hclass) hmeets.2

end Path

/-! ## Writing along selectors -/

section

variable {host : HostHandler} {n : Nat} {t t' : Task} {s s' : Store} {v : Value}

/-- Where a name stands for nothing that is declared or built in, its value is that of the
variable. -/
theorem lookup_eq_getD {word : String}
    (h : (lookup word t s).isBare → lookup word t s = .nil) :
    lookup word t s = (t.scope.get? word).getD .nil := by
  cases hget : t.scope.get? word with
  | some c => simp [lookup, hget]
  | none => exact h (isBare_lookup (by simp [hget]))

/-- Of things that are no data, only nil has elements. -/
theorem Value.eq_nil_of_element {fields : ObjectRef → Dict Value} {c key d : Value}
    (hc : c.isBare) (h : c.element fields key = .ok d) : c = .nil := by
  cases c with
  | nil => rfl
  | _ => simp_all [element, isIndexable, isBare]

/-- An assignment to an element of a variable that holds no object changes the variable at once. -/
theorem yields_assign_element {word : String} {key : Literal}
    (hobject : ∀ ref, (t.scope.get? word).getD .nil ≠ .object ref)
    (hrun : ((withLevels host n).assign ((Path.name word).select (.index key)).expr v t s).Yields
      (.value ()) t' s') :
    ∃ changed, (Selector.index key).change? v ((t.scope.get? word).getD .nil) = some changed ∧
      t' = t.set word changed ∧ s' = s := by
  have hkey : ∀ e ∈ some key.expr, e.literalValue?.isSome := by simp [key.eq]
  have hstore := yields_assign_variable hkey (by simp) hrun
  rw [Option.bind_some, key.eq] at hstore
  obtain ⟨-, hchanged | ⟨ref, field, hc, -⟩⟩ := yields_storeInVariable hstore
  · exact hchanged
  · exact absurd hc (hobject ref)

/-- Any other assignment at a selector reads the container first and ends in its assignment. -/
theorem yields_assign_select {path : Path} (hpath : path.IsLiteral) {σ : Selector}
    (hσ : ∀ word key, path = .name word → σ ≠ .index key)
    (hobject : ∀ c, path.expr.ReadsAs host t s (.ok c) → ∀ ref, c ≠ .object ref)
    (hrun : ((withLevels host n).assign (path.select σ).expr v t s).Yields (.value ()) t' s') :
    ∃ c changed, path.expr.ReadsAs host t s (.ok c) ∧ σ.change? v c = some changed ∧
      ((withLevels host n).assign path.expr changed t s).Yields (.value ()) t' s' := by
  cases σ with
  | index key =>
    have hne : ∀ word, path ≠ .name word := fun word heq => hσ word key heq rfl
    have hkey : ∀ e ∈ some key.expr, e.literalValue?.isSome := by simp [key.eq]
    obtain ⟨c, hc, hput⟩ := yields_assign_index hpath hne hkey hrun
    rw [Option.bind_some, key.eq] at hput
    obtain ⟨changed, hchanged, hassign⟩ | ⟨ref, field, href, -⟩ := yields_putElement hput
    · exact ⟨c, changed, hc, hchanged, hassign⟩
    · exact absurd href (hobject c hc ref)
  | member property access =>
    obtain ⟨c, hc, hput⟩ := yields_assign_member hpath hrun
    obtain ⟨changed, hchanged, hassign⟩ | ⟨ref, href, -⟩ := yields_putMember hput
    · exact ⟨c, changed, hc, hchanged, hassign⟩
    · exact absurd href (hobject c hc ref)

theorem yields_assign_name {word : String}
    (hrun : ((withLevels host n).assign (.name word) v t s).Yields (.value ()) t' s') :
    t' = t.set word v ∧ s' = s := by
  obtain ⟨fault, hassign⟩ | ⟨-, hassign⟩ := Script.assignVariable_cases word v t s
  · rw [assign, hassign] at hrun
    cases hrun
  · rw [assign, hassign] at hrun
    exact (Run.yields_finished_iff.mp hrun).2

/-- What an assignment one step inside a variable does. A variable that is not bound counts as nil
even where its name is that of a function or a class. -/
theorem yields_assign_root {word : String} {σ : Selector}
    (hobject : ∀ c, (Path.name word).expr.ReadsAs host t s (.ok c) → ∀ ref, c ≠ .object ref)
    (hrun : ((withLevels host n).assign ((Path.name word).select σ).expr v t s).Yields (.value ())
      t' s') :
    ∃ changed, σ.change? v ((t.scope.get? word).getD .nil) = some changed ∧
      t' = t.set word changed ∧ s' = s ∧
      ∀ d, ((Path.name word).select σ).expr.ReadsAs host t s (.ok d) →
        σ.read s ((t.scope.get? word).getD .nil) = .ok d := by
  have hname : (Path.name word).expr.ReadsAs host t s (.ok (lookup word t s)) :=
    Expr.readsAs_name word
  cases σ with
  | index key =>
    have hroot : ∀ ref, (t.scope.get? word).getD .nil ≠ .object ref := by
      intro ref href
      have hget : t.scope.get? word = some (.object ref) :=
        href ▸ get?_of_ne_nil (by simp [href])
      exact hobject _ hname ref (by simp [lookup, hget])
    obtain ⟨changed, hchange, rfl, rfl⟩ := yields_assign_element hroot hrun
    refine ⟨changed, hchange, rfl, rfl, fun d hd => ?_⟩
    have hread := (Path.readsAs_select hname id).unique hd
    rw [← lookup_eq_getD fun hbare => Value.eq_nil_of_element hbare hread]
    exact hread
  | member property access =>
    have hpath : (Path.name word).IsLiteral := trivial
    obtain ⟨c, changed, hc, hchange, hassign⟩ :=
      yields_assign_select hpath (by simp) hobject hrun
    cases hname.unique hc
    obtain ⟨rfl, rfl⟩ := yields_assign_name hassign
    have heq := lookup_eq_getD fun hbare => Selector.eq_nil_of_change? hbare hchange
    rw [← heq]
    refine ⟨changed, hchange, rfl, rfl, fun d hd => ?_⟩
    exact (Path.readsAs_select hname (Selector.not_isOfClass_of_change? hchange _)).unique hd

/-- An assignment along selectors that meets no object comes to an update of the variable. The
induction is on the selectors from the last one, since the container that has changed is assigned to
the path without it. -/
theorem updated?_of_assign_cons {word : String} {σ : Selector} {rest : List Selector}
    (hmeets : (Path.name word).Meets host t s (fun c _ => ∀ ref, c ≠ .object ref) (σ :: rest))
    (hrun : ((withLevels host n).assign ((Path.name word).via (σ :: rest)).expr v t s).Yields
      (.value ()) t' s') :
    ∃ final, ((t.scope.get? word).getD .nil).updated? s (σ :: rest) v = some final ∧
      t' = t.set word final ∧ s' = s ∧
      ∀ d, ((Path.name word).via (σ :: rest)).expr.ReadsAs host t s (.ok d) →
        ((t.scope.get? word).getD .nil).readVia s (σ :: rest) = .ok d := by
  induction rest using List.reverseRecOn generalizing v with
  | nil =>
    obtain ⟨changed, hchange, rfl, rfl, hread⟩ := yields_assign_root hmeets.1 hrun
    refine ⟨changed, Value.updated?_singleton hchange, rfl, rfl, fun d hd => ?_⟩
    exact Value.readVia_cons_iff.mpr ⟨d, hread d hd, rfl⟩
  | append_singleton rest τ ih =>
    rw [← List.cons_append, Path.meets_append] at hmeets
    obtain ⟨hbefore, hlast, -⟩ := hmeets
    rw [← List.cons_append, Path.via_append] at hrun ⊢
    have hroot : (Path.name word).IsLiteral := trivial
    have hne (name : String) (key : Literal) (heq : (Path.name word).via (σ :: rest) = .name name) :
        τ ≠ .index key :=
      absurd heq (Path.via_cons_ne_name _ σ rest name)
    obtain ⟨c, changed, hc, hchange, hassign⟩ :=
      yields_assign_select (Path.isLiteral_via hroot _) hne hlast hrun
    obtain ⟨final, hupdated, rfl, rfl, hread⟩ := ih hbefore hassign
    have hc' := hread c hc
    refine ⟨final, ?_, rfl, rfl, fun d hd => ?_⟩
    · rw [Value.updated?_append hc', Value.updated?_singleton hchange]
      exact hupdated
    · have hclass := Selector.not_isOfClass_of_change? hchange τ
      rw [Value.readVia_append hc']
      exact Value.readVia_cons_iff.mpr ⟨d, (Path.readsAs_select hc hclass).unique hd, rfl⟩

/-- An assignment along a path that meets no object leaves the updated value in the variable. -/
theorem updated?_of_assign {word : String} {selectors : List Selector}
    (hmeets : (Path.name word).Meets host t s (fun c _ => ∀ ref, c ≠ .object ref) selectors)
    (hrun : ((withLevels host n).assign ((Path.name word).via selectors).expr v t s).Yields
      (.value ()) t' s') :
    ∃ final, ((t.scope.get? word).getD .nil).updated? s selectors v = some final ∧
      t' = t.set word final ∧ s' = s := by
  cases selectors with
  | nil => exact ⟨v, rfl, yields_assign_name hrun⟩
  | cons σ rest =>
    obtain ⟨final, hupdated, ht, hs, -⟩ := updated?_of_assign_cons hmeets hrun
    exact ⟨final, hupdated, ht, hs⟩

/-- A variable reads as what was assigned to it. -/
theorem readsAs_set_self (word : String) (value : Value) :
    (Path.name word).expr.ReadsAs host (t.set word value) s (.ok value) := by
  have hget : (t.set word value).scope.get? word = some value := Scope.get?_set_self ..
  have hread : (Path.name word).expr.ReadsAs host (t.set word value) s
      (.ok (lookup word (t.set word value) s)) := Expr.readsAs_name word
  rwa [lookup, hget] at hread

/-- A name that stands for a container is a variable. -/
theorem lookup_eq_getD_of_isContainer {word : String} (h : (lookup word t s).isContainer) :
    lookup word t s = (t.scope.get? word).getD .nil := by
  refine lookup_eq_getD fun hbare => ?_
  cases hlookup : lookup word t s <;> simp_all [Value.isContainer, Value.isBare]

/-- Beside the place of an update, containers all along the way are read as before. -/
theorem exists_readsAs_beside {word : String} {before after : List Selector} {σ τ : Selector}
    {c final : Value}
    (hupdated : ((t.scope.get? word).getD .nil).updated? s (before ++ σ :: after) v = some final)
    (hmeets : (Path.name word).Meets host t s (fun c _ => c.isContainer) (before ++ σ :: after))
    (hc : ((Path.name word).via before).expr.ReadsAs host t s (.ok c))
    (hseparates : σ.Separates τ c) :
    ∃ x, ((Path.name word).via (before ++ [τ])).expr.ReadsAs host t s x ∧
      ((Path.name word).via (before ++ [τ])).expr.ReadsAs host (t.set word final) s x := by
  have hname : (Path.name word).expr.ReadsAs host t s (.ok (lookup word t s)) :=
    Expr.readsAs_name word
  have hroot : (lookup word t s).isContainer := by
    cases before with
    | nil => exact hmeets.1 _ hname
    | cons => exact hmeets.1 _ hname
  rw [← lookup_eq_getD_of_isContainer hroot] at hupdated
  have hclasses : (Path.name word).Meets host t s (fun c υ => ¬ υ.isOfClass c) before := by
    refine (Path.meets_append.mp hmeets).1.mono fun c υ hcontainer => ?_
    exact Selector.not_isOfClass_of_isContainer hcontainer υ
  have hread := Path.readVia_of_readsAs hname hclasses hc
  obtain ⟨w, changed, hchange, hfinal⟩ := Value.readVia_of_updated? hupdated hread
  have hchanged : ((Path.name word).via before).expr.ReadsAs host (t.set word final) s
      (.ok changed) :=
    Path.readsAs_via (readsAs_set_self word final) hfinal
  refine ⟨τ.read s c, ?_, ?_⟩
  · rw [Path.via_append]
    exact Path.readsAs_select hc (Selector.not_isOfClass_of_change? hchange τ)
  · rw [Path.via_append, ← Selector.read_of_separates hchange hseparates]
    have hcontainer := Selector.isContainer_of_change? hchange
    exact Path.readsAs_select hchanged (Selector.not_isOfClass_of_isContainer hcontainer τ)

/-- After an assignment along selectors from a variable that has met no object, reading the same
path gives the value. The store, the tags and all other variables in all frames are as before. If
there were containers all along the way, then a path that leaves it at another element reads what it
read before, as long as it takes no member of a class. -/
theorem assignment_read_back {word : String} {selectors : List Selector}
    (hmeets : (Path.name word).Meets host t s (fun c _ => ∀ ref, c ≠ .object ref) selectors)
    (hrun : ((withLevels host n).assign ((Path.name word).via selectors).expr v t s).Yields
      (.value ()) t' s') :
    ((Path.name word).via selectors).expr.ReadsAs host t' s' (.ok v) ∧
    s' = s ∧ (∀ i name, t'.scope.tagAt? i name = t.scope.tagAt? i name) ∧
    (∀ i name, (i, name) ≠ (t.scope.home word, word) →
      t'.scope.binding? i name = t.scope.binding? i name) ∧
    ((Path.name word).Meets host t s (fun c _ => c.isContainer) selectors →
      ∀ before σ after, selectors = before ++ σ :: after →
      ∀ c, ((Path.name word).via before).expr.ReadsAs host t s (.ok c) →
      ∀ τ tail, σ.Separates τ c →
        ((Path.name word).via (before ++ [τ])).Meets host t s (fun c υ => ¬ υ.isOfClass c) tail →
        ∃ x, ((Path.name word).via (before ++ τ :: tail)).expr.ReadsAs host t s x ∧
          ((Path.name word).via (before ++ τ :: tail)).expr.ReadsAs host t' s' x) := by
  obtain ⟨final, hupdated, rfl, rfl⟩ := updated?_of_assign hmeets hrun
  refine ⟨?_, rfl, t.scope.tagAt?_set word final, fun i name hne => ?_, ?_⟩
  · exact Path.readsAs_via (readsAs_set_self word final) (Value.readVia_updated? hupdated)
  · have hset := t.scope.binding?_set word final i name
    rwa [if_neg fun heq => hne (Prod.ext heq.1 heq.2)] at hset
  · rintro hcontainers before σ after rfl c hc τ tail hseparates htail
    obtain ⟨x, hx, hx'⟩ := exists_readsAs_beside hupdated hcontainers hc hseparates
    rw [List.append_cons, Path.via_append]
    exact Path.exists_readsAs_via hx hx' htail

/-- With `$x = {"a": [1, 2]}`, the assignment `$x.a[0] = 5` can be read back and leaves `$x.a[1]` as
it is. -/
theorem assignment_read_back_nested :
    let σ (i : Int64) : Selector := .index ⟨.int i, .int i, rfl⟩
    let x (v : Value) : Task :=
      { scope := { globals := { vars := [("x", .map [("a", .array [v, .int 2])])] } } }
    let place (i : Int64) : Expr := ((Path.name "x").via [.member "a" .dot, σ i]).expr
    ((withLevels .none 4).assign (place 0) (.int 5) (x (.int 1)) {}).Yields (.value ()) (x (.int 5))
        {} ∧
      (place 0).ReadsAs .none (x (.int 5)) {} (.ok (.int 5)) ∧
      ∃ y, (place 1).ReadsAs .none (x (.int 1)) {} y ∧
        (place 1).ReadsAs .none (x (.int 5)) {} y := by
  intro σ x place
  have hrun : ((withLevels .none 4).assign (place 0) (.int 5) (x (.int 1)) {}).Yields (.value ())
      (x (.int 5)) {} := .finished
  have hname : (Path.name "x").expr.ReadsAs .none (x (.int 1)) {}
      (.ok (.map [("a", .array [.int 1, .int 2])])) := Expr.readsAs_name "x"
  have ha : ((Path.name "x").select (.member "a" .dot)).expr.ReadsAs .none (x (.int 1)) {}
      (.ok (.array [.int 1, .int 2])) :=
    Path.readsAs_select hname (Selector.not_isOfClass_of_isContainer rfl _)
  have hmeets {P : Value → Selector → Prop} (hmap : ∀ entries σ, P (.map entries) σ)
      (harray : ∀ items σ, P (.array items) σ) :
      (Path.name "x").Meets .none (x (.int 1)) {} P [.member "a" .dot, σ 0] := by
    refine ⟨fun c hc => ?_, fun c hc => ?_, trivial⟩
    · cases hname.unique hc
      exact hmap ..
    · cases ha.unique hc
      exact harray ..
  have hback := assignment_read_back (hmeets (by simp) (by simp)) hrun
  refine ⟨hrun, hback.1, ?_⟩
  exact hback.2.2.2.2 (hmeets (fun _ _ => rfl) fun _ _ => rfl) [.member "a" .dot] (σ 0) [] rfl _ ha
    (σ 1) [] (by simp [Selector.Separates, σ, Selector.key]) trivial

/-- A member of a class beside the place of an assignment need not be read as before: making the
object evaluates `$v = 10 % $x[0]`, which fails after `$x[0] = 0`. -/
theorem class_member_read_changes :
    let method : FunctionDecl := ⟨"m", [], some [.returns (some (.int 1))], false⟩
    let property : PropertyDecl :=
      ⟨"v", none, some (.binary (.int 10) .modulo (.index (.name "x") (some (.int 0))))⟩
    let s : Store := { classes := .declareAll [⟨"C", none, [property], [method]⟩] {} }
    let x (v : Value) : Task :=
      { scope := { globals := { vars := [("x", .array [v, .classRef "C"])] } } }
    let σ (i : Int64) : Selector := .index ⟨.int i, .int i, rfl⟩
    let beside := ((Path.name "x").via [σ 1, .member "m" .dot]).expr
    (Path.name "x").Meets .none (x (.int 1)) s (fun c _ => c.isContainer) [σ 0] ∧
      ((withLevels .none 4).assign ((Path.name "x").via [σ 0]).expr (.int 0) (x (.int 1)) s).Yields
        (.value ()) (x (.int 0)) s ∧
      (σ 0).Separates (σ 1) (.array [.int 1, .classRef "C"]) ∧
      (∃ t' s', ((withLevels .none 9).expr beside (x (.int 1)) s).Yields
        (.value (.method method ⟨0, "C"⟩)) t' s') ∧
      ∃ t' s', ((withLevels .none 9).expr beside (x (.int 0)) s).Yields
        (.signal (.failed .divisionByZero)) t' s' := by
  intro method property s x σ beside
  have hname : (Path.name "x").expr.ReadsAs .none (x (.int 1)) s
      (.ok (.array [.int 1, .classRef "C"])) := Expr.readsAs_name "x"
  refine ⟨⟨fun c hc => ?_, trivial⟩, .finished, ?_, ⟨_, _, .finished⟩, ⟨_, _, .finished⟩⟩
  · cases hname.unique hc
    rfl
  · simp [Selector.Separates, σ, Selector.key]

end

end RouteScript
