import RouteScript.Proofs.ClassTable.Ancestry

/-!
# Links of class tables

A declaration renews all links. A class that the host adds does not: classes that name it as their
parent stay without a link until the next declaration.
-/

namespace RouteScript.ClassTable

/-- The link of every class is the place of its declared parent, if that is registered. -/
def LinksCurrent (t : ClassTable) : Prop :=
  ∀ e ∈ t.entries, e.parent = e.decl.parent.bind t.indexOf?

/-- A link is the place of the declared parent, or it is missing and the parent is hosted. -/
def LinksLag (t : ClassTable) : Prop :=
  ∀ e ∈ t.entries, e.parent = e.decl.parent.bind t.indexOf? ∨
    e.parent = none ∧ ∃ p ∈ t.entries, p.hosted ∧ e.decl.parent = some p.decl.name

variable {t : ClassTable} {name : String}

/-! ## Places after a change -/

theorem indexOf?_congr {t' : ClassTable} (h : t'.names = t.names) (name : String) :
    t'.indexOf? name = t.indexOf? name := by
  rw [indexOf?_eq, indexOf?_eq, h]

/-! ## Declarations -/

/-- Renewed links are current. -/
theorem linksCurrent_relink (t : ClassTable) : t.relink.LinksCurrent := by
  intro e he
  obtain ⟨old, -, rfl⟩ := List.mem_map.mp he
  simp only [indexOf?_congr (names_relink t)]

theorem linksCurrent_of_register {decl : ClassDecl} {t' : ClassTable}
    (h : t.register decl = .ok t') : t'.LinksCurrent := by
  unfold register at h
  split at h
  · cases h
  · cases h
    exact linksCurrent_relink _

/-! ## Hosted classes -/

/-- Where a class is hosted from now on, the links and the places stay. -/
theorem linksCurrent_addHosted_of_contains (h : t.LinksCurrent) (hname : t.contains name) :
    (t.addHosted name).LinksCurrent := by
  have hnames : (t.addHosted name).names = t.names := by
    rw [names_addHosted, if_pos (contains_iff.mp hname)]
  intro e he
  obtain ⟨old, hold, hdecl, hparent⟩ | ⟨hnew, -⟩ := mem_addHosted he
  · rw [hdecl, hparent, h old hold]
    simp only [indexOf?_congr hnames]
  · exact absurd (contains_iff.mp hname) hnew

theorem addHosted_of_not_contains (hname : ¬ t.contains name) :
    (t.addHosted name).entries = t.entries ++ [{ decl := .bare name, hosted := true }] ∧
      ∀ other, (t.addHosted name).indexOf? other =
        if other = name then some t.size else t.indexOf? other :=
  upsert_of_not_contains hname

/-- The place of the declared parent of a class, once a hosted class has been added. -/
theorem bind_indexOf?_addHosted (hname : ¬ t.contains name) (parent : Option String) :
    parent.bind (t.addHosted name).indexOf? =
      if parent = some name then some t.size else parent.bind t.indexOf? := by
  cases parent with
  | none => simp
  | some other => simp [(addHosted_of_not_contains hname).2]

/-- A class of the host leaves the links current exactly if no class was waiting for its name. -/
theorem linksCurrent_addHosted_iff (h : t.LinksCurrent) (hname : ¬ t.contains name) :
    (t.addHosted name).LinksCurrent ↔ ∀ e ∈ t.entries, e.decl.parent ≠ some name := by
  constructor
  · intro hcurrent e he hparent
    have hmem : e ∈ (t.addHosted name).entries := by
      simp [(addHosted_of_not_contains hname).1, he]
    have hnew := hcurrent e hmem
    have hold := h e he
    have hnone : t.indexOf? name = none := indexOf?_eq_none_iff.mpr (mt contains_iff.mpr hname)
    rw [bind_indexOf?_addHosted hname, if_pos hparent] at hnew
    rw [hparent, Option.bind_some, hnone] at hold
    cases hnew.symm.trans hold
  · intro hfree e he
    rw [bind_indexOf?_addHosted hname]
    rw [(addHosted_of_not_contains hname).1] at he
    rcases List.mem_append.mp he with hold | hnew
    · rw [if_neg (hfree e hold)]
      exact h e hold
    · rw [List.mem_singleton.mp hnew]
      rfl

/-! ## Reachable tables -/

theorem LinksCurrent.lag (h : t.LinksCurrent) : t.LinksLag := fun e he => .inl (h e he)

/-- A link may lag behind, but a class of the host does not make it wrong. -/
theorem LinksLag.addHosted (h : t.LinksLag) (name : String) : (t.addHosted name).LinksLag := by
  have hlate {e : ClassEntry} (hlink : e.parent = none ∧ ∃ p ∈ t.entries,
      p.hosted ∧ e.decl.parent = some p.decl.name) :
      ∃ p ∈ (t.addHosted name).entries, p.hosted ∧ e.decl.parent = some p.decl.name := by
    obtain ⟨-, p, hp, hhosted, hparent⟩ := hlink
    obtain ⟨i, hi⟩ := List.mem_iff_getElem?.mp hp
    obtain ⟨p', hp', hdecl, hkept⟩ := getElem?_addHosted name hi
    exact ⟨p', List.mem_of_getElem? hp', hkept hhosted, hdecl ▸ hparent⟩
  by_cases hname : t.contains name
  · have hnames : (t.addHosted name).names = t.names := by
      rw [names_addHosted, if_pos (contains_iff.mp hname)]
    intro e he
    obtain ⟨old, hold, hdecl, hparent⟩ | ⟨hnew, -⟩ := mem_addHosted he
    · rw [hdecl, hparent]
      simp only [indexOf?_congr hnames]
      exact (h old hold).imp id fun hlink => ⟨hlink.1, hlate hlink⟩
    · exact absurd (contains_iff.mp hname) hnew
  · have hadded := (addHosted_of_not_contains hname).1
    intro e he
    rw [bind_indexOf?_addHosted hname]
    rw [hadded] at he
    rcases List.mem_append.mp he with hold | hnew
    · rcases h e hold with hlink | hlink
      · by_cases hparent : e.decl.parent = some name
        · have hnone : t.indexOf? name = none :=
            indexOf?_eq_none_iff.mpr (mt contains_iff.mpr hname)
          rw [hparent, Option.bind_some, hnone] at hlink
          refine .inr ⟨hlink, { decl := .bare name, hosted := true }, ?_, rfl, hparent⟩
          simp [hadded]
        · exact .inl (by rw [if_neg hparent, hlink])
      · exact .inr ⟨hlink.1, hlate hlink⟩
    · rw [List.mem_singleton.mp hnew]
      exact .inl rfl

/-- In every reachable table a link is right, or missing because the host added the parent. -/
theorem Reachable.linksLag (h : t.Reachable) : t.LinksLag := by
  induction h with
  | empty => simp [LinksLag]
  | addHosted name _ ih => exact ih.addHosted name
  | register _ hok _ => exact (linksCurrent_of_register hok).lag

theorem chain_eq_nil (h : t.get? name = none) : t.chain name = [] := by
  rw [chain, indexOf?_eq_none_iff.mpr (get?_eq_none_iff.mp h)]
  rfl

/-- A chain starts with the class itself and goes on along its link. -/
theorem WellFormed.chain_eq (h : t.WellFormed) {e : ClassEntry} (he : t.get? name = some e) :
    t.chain name = e :: t.chainFrom t.size e.parent := by
  obtain ⟨hmem, hname⟩ := get?_spec he
  obtain ⟨i, hi⟩ := List.mem_iff_getElem?.mp hmem
  have hindex : t.indexOf? name = some i := (indexOf?_eq_some_iff h.nodup).mpr ⟨e, hi, hname⟩
  simp only [chain, hindex, chainFrom, hi]

/-- Where the links are current, a chain goes on with the chain of the declared parent. -/
theorem chain_eq_cons (hwell : t.WellFormed) (hcurrent : t.LinksCurrent) {e : ClassEntry}
    (he : t.get? name = some e) : t.chain name = e :: e.decl.parent.elim [] t.chain := by
  rw [hwell.chain_eq he, hcurrent e (get?_spec he).1]
  cases e.decl.parent with
  | none => cases t.size <;> rfl
  | some parent => exact congrArg _ (hwell.chainFrom_eq (Nat.le_succ _) _).symm

/-- A declaration makes all links current. A hosted class keeps them so exactly if it is there
already or no class waits for it. A link that is not current is missing, and leads to a hosted
class. Along current links, the chain of a class goes on with the chain of its declared parent. -/
theorem links_current_until_hosted (h : t.Reachable) :
    (∀ decl t', t.register decl = .ok t' → t'.LinksCurrent) ∧
    (∀ name, t.LinksCurrent → ((t.addHosted name).LinksCurrent ↔
      t.contains name ∨ ∀ e ∈ t.entries, e.decl.parent ≠ some name)) ∧
    t.LinksLag ∧
    (t.LinksCurrent → ∀ name e, t.get? name = some e →
      t.chain name = e :: e.decl.parent.elim [] t.chain) := by
  refine ⟨fun decl t' => linksCurrent_of_register, fun name hcurrent => ?_, h.linksLag,
    fun hcurrent name e => chain_eq_cons h.wellFormed hcurrent⟩
  by_cases hname : t.contains name
  · simp [hname, linksCurrent_addHosted_of_contains hcurrent hname]
  · simp [hname, linksCurrent_addHosted_iff hcurrent hname]

/-- A hosted parent that is added after its child is not linked. -/
theorem links_current_until_hosted_late_parent :
    let dog : ClassDecl := ⟨"Dog", some "Animal", [], []⟩
    let t : ClassTable := declareAll [dog] {}
    t.Reachable ∧ t.LinksCurrent ∧ ¬ (t.addHosted "Animal").LinksCurrent := by
  intro dog t
  have hok : register dog {} = .ok t := rfl
  have hreach : t.Reachable := .register .empty hok
  have hcurrent : t.LinksCurrent := (links_current_until_hosted .empty).1 dog t hok
  refine ⟨hreach, hcurrent, fun hlater => ?_⟩
  rcases ((links_current_until_hosted hreach).2.1 "Animal" hcurrent).mp hlater with hthere | hfree
  · cases hthere
  · exact hfree _ (List.mem_singleton_self _) rfl

end RouteScript.ClassTable
