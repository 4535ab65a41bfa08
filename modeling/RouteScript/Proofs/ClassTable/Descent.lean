import RouteScript.Proofs.ClassTable.Links
import RouteScript.Task.Store

/-!
# Descent of classes

The chain of a class ends with the chain of each of its ancestors, whether the links are current or
not. So descent is an order, and what is found along the chain of an ancestor is found along the
chains of its descendants: methods, the host, and the types of variables that accept an object.
-/

namespace RouteScript.ClassTable

variable {t : ClassTable} {name className ancestor : String}

/-! ## Chains inside each other -/

/-- A chain is empty, ends with the class itself, or goes on with the chain of its declared
parent. -/
theorem WellFormed.chain_cases (h : t.WellFormed) (name : String) :
    t.get? name = none ∧ t.chain name = [] ∨
      ∃ e, t.get? name = some e ∧ (t.chain name = [e] ∨
        ∃ parent, e.decl.parent = some parent ∧ t.chain name = e :: t.chain parent) := by
  cases he : t.get? name with
  | none => exact .inl ⟨rfl, chain_eq_nil he⟩
  | some e =>
    refine .inr ⟨e, rfl, ?_⟩
    rw [h.chain_eq he]
    cases hlink : e.parent with
    | none => exact .inl (by cases t.size <;> rfl)
    | some j =>
      obtain ⟨target, htarget, hparent⟩ := h.links e (get?_spec he).1 j hlink
      have hindex : t.indexOf? target.decl.name = some j :=
        (indexOf?_eq_some_iff h.nodup).mpr ⟨target, htarget, rfl⟩
      refine .inr ⟨target.decl.name, hparent, ?_⟩
      rw [chain, hindex, h.chainFrom_eq (Nat.le_succ _)]

/-- The chain of a class starts with the class itself. -/
theorem WellFormed.exists_chain_eq_cons (h : t.WellFormed) (hname : t.contains name) :
    ∃ e rest, t.chain name = e :: rest ∧ e.decl.name = name := by
  rw [contains_eq_isSome] at hname
  obtain ⟨e, he⟩ := Option.isSome_iff_exists.mp hname
  exact ⟨e, _, h.chain_eq he, (get?_spec he).2⟩

/-- The induction is on the length of the chain, which goes on with a chain of its own. -/
theorem WellFormed.chain_suffix (h : t.WellFormed) {e : ClassEntry} (he : e ∈ t.chain name) :
    t.chain e.decl.name <:+ t.chain name := by
  induction hlength : (t.chain name).length using Nat.strong_induction_on generalizing name with
  | _ length ih =>
    obtain ⟨-, hchain⟩ | ⟨first, hfirst, hchain⟩ := h.chain_cases name
    · simp [hchain] at he
    · obtain rfl : first.decl.name = name := (get?_spec hfirst).2
      obtain hchain | ⟨parent, -, hchain⟩ := hchain
      · rw [hchain, List.mem_singleton] at he
        exact he ▸ List.suffix_rfl
      · rw [hchain] at he hlength
        obtain rfl | hrest := List.mem_cons.mp he
        · exact List.suffix_rfl
        · have hsuffix := ih _ (by rw [← hlength]; simp) hrest rfl
          rw [hchain]
          exact hsuffix.trans (List.suffix_cons ..)

/-! ## Descent -/

/-- A class descends from another one exactly if its chain ends with the chain of the other one. -/
theorem WellFormed.isA_iff (h : t.WellFormed) :
    t.isA className ancestor ↔ t.contains ancestor ∧ t.chain ancestor <:+ t.chain className := by
  constructor
  · intro hisA
    obtain ⟨e, he, hname⟩ := List.any_eq_true.mp hisA
    obtain rfl := beq_iff_eq.mp hname
    have hmem : e ∈ t.entries := (h.chainFrom_spec _ _).1 e he
    exact ⟨contains_iff.mpr (List.mem_map_of_mem hmem), h.chain_suffix he⟩
  · rintro ⟨hcontains, hsuffix⟩
    obtain ⟨e, rest, hchain, hname⟩ := h.exists_chain_eq_cons hcontains
    have he : e ∈ t.chain ancestor := by simp [hchain]
    exact List.any_eq_true.mpr ⟨e, hsuffix.subset he, beq_iff_eq.mpr hname⟩

/-- Descent is transitive. -/
theorem WellFormed.isA_trans (h : t.WellFormed) {middle : String} (hfirst : t.isA className middle)
    (hsecond : t.isA middle ancestor) : t.isA className ancestor := by
  rw [h.isA_iff] at hfirst hsecond ⊢
  exact ⟨hsecond.1, hsecond.2.trans hfirst.2⟩

/-- Two classes that descend from each other are one. -/
theorem WellFormed.isA_antisymm (h : t.WellFormed) (hup : t.isA className ancestor)
    (hdown : t.isA ancestor className) : className = ancestor := by
  obtain ⟨hancestor, hup⟩ := h.isA_iff.mp hup
  obtain ⟨hclass, hdown⟩ := h.isA_iff.mp hdown
  have hchains : t.chain ancestor = t.chain className :=
    hup.eq_of_length_le hdown.length_le
  obtain ⟨e, rest, hchain, rfl⟩ := h.exists_chain_eq_cons hclass
  obtain ⟨e', rest', hchain', rfl⟩ := h.exists_chain_eq_cons hancestor
  rw [hchain, hchain', List.cons.injEq] at hchains
  rw [hchains.1]

/-! ## What descendants have -/

/-- A method that the ancestor has, its own or an inherited one, the descendant has too. -/
theorem isSome_findMethod?_of_suffix {method : String}
    (h : t.chain ancestor <:+ t.chain className) (hmethod : (t.findMethod? ancestor method).isSome) :
    (t.findMethod? className method).isSome := by
  rw [findMethod?, List.findSome?_isSome_iff] at hmethod ⊢
  obtain ⟨e, he, hfound⟩ := hmethod
  exact ⟨e, h.subset he, hfound⟩

theorem isSome_hostedAncestor?_of_suffix (h : t.chain ancestor <:+ t.chain className)
    (hhosted : (t.hostedAncestor? ancestor).isSome) : (t.hostedAncestor? className).isSome := by
  rw [hostedAncestor?, Option.isSome_map, List.find?_isSome] at hhosted ⊢
  obtain ⟨e, he, hfound⟩ := hhosted
  exact ⟨e, h.subset he, hfound⟩

/-- What a variable of a class accepts, a variable of an ancestor accepts as well. -/
theorem WellFormed.check_of_isA {s : Store} (h : s.classes.WellFormed)
    (hisA : s.classes.isA className ancestor) {word : String} {value : Value}
    (hcheck : s.check word (.instance className) value = .ok ()) :
    s.check word (.instance ancestor) value = .ok () := by
  have hok (tag : Tag) : s.check word tag value = .ok () ↔ s.accepts tag value := by
    by_cases haccepts : s.accepts tag value <;> simp [Store.check, haccepts]
  rw [hok] at hcheck ⊢
  cases value with
  | nil => rfl
  | object ref => exact h.isA_trans hcheck hisA
  | _ => exact hcheck

/-- Descent is an order on the registered classes. A class has a method for each name that an
ancestor has one for, is hosted if an ancestor is, and its objects fit wherever objects of an
ancestor are asked for. -/
theorem descent_is_order (h : t.Reachable) :
    (∀ name, t.isA name name ↔ t.contains name) ∧
    (∀ className middle ancestor,
      t.isA className middle → t.isA middle ancestor → t.isA className ancestor) ∧
    (∀ className ancestor,
      t.isA className ancestor → t.isA ancestor className → className = ancestor) ∧
    ∀ className ancestor, t.isA className ancestor →
      (∀ method, (t.findMethod? ancestor method).isSome →
        (t.findMethod? className method).isSome) ∧
      ((t.hostedAncestor? ancestor).isSome → (t.hostedAncestor? className).isSome) ∧
      ∀ s : Store, s.classes = t → ∀ word value,
        s.check word (.instance className) value = .ok () →
        s.check word (.instance ancestor) value = .ok () := by
  have hwell := h.wellFormed
  refine ⟨fun name => ?_, fun className middle ancestor => hwell.isA_trans,
    fun className ancestor => hwell.isA_antisymm, fun className ancestor hisA => ?_⟩
  · simp [hwell.isA_iff]
  · have hsuffix := (hwell.isA_iff.mp hisA).2
    refine ⟨fun method => isSome_findMethod?_of_suffix hsuffix,
      isSome_hostedAncestor?_of_suffix hsuffix, ?_⟩
    rintro s rfl word value
    exact hwell.check_of_isA hisA

/-- A class whose parent comes after it descends from the hosted ancestor of that parent. -/
theorem descent_is_order_late_parent :
    let history : ClassDecl := ⟨"History", some "Stack", [], []⟩
    let undo : ClassDecl := ⟨"Undo", some "History", [], []⟩
    let t : ClassTable := (addHosted "Stack" {}).declareAll [undo, history]
    t.Reachable ∧ t.isA "Undo" "Stack" ∧ (t.hostedAncestor? "Undo").isSome := by
  intro history undo t
  have hundo : (addHosted "Stack" {}).register undo =
      .ok ((addHosted "Stack" {}).declareAll [undo]) := rfl
  have hhistory : ((addHosted "Stack" {}).declareAll [undo]).register history = .ok t := by
    unfold t history undo
    rfl
  have hreach : t.Reachable := .register (.register (.addHosted "Stack" .empty) hundo) hhistory
  obtain ⟨-, htrans, -, hdescendants⟩ := descent_is_order hreach
  have hisA : t.isA "Undo" "Stack" :=
    htrans "Undo" "History" "Stack" (by decide +kernel) (by decide +kernel)
  exact ⟨hreach, hisA, (hdescendants "Undo" "Stack" hisA).2.1 (by decide +kernel)⟩

end RouteScript.ClassTable
