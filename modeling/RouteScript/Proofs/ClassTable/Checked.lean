import RouteScript.Proofs.ClassTable.Ancestry

/-!
# Checks of all classes

If every declaration passes a check before it is registered, then so do the ancestors of a class,
and what the check says of a class and its parent is handed on from class to class.
-/

namespace RouteScript.ClassTable

variable {t t' : ClassTable} {decl : ClassDecl} {e : ClassEntry}

/-! ## Where classes come from -/

theorem mem_of_mem_chain {name : String} (h : e ∈ t.chain name) : e ∈ t.entries := by
  have hmem (steps : Nat) (start : Option Nat) (h : e ∈ t.chainFrom steps start) :
      e ∈ t.entries := by
    induction steps generalizing start with
    | zero => simp [chainFrom] at h
    | succ steps ih =>
      cases start with
      | none => simp [chainFrom] at h
      | some i =>
        cases he : t.entries[i]? with
        | none => simp [chainFrom, he] at h
        | some e' =>
          simp only [chainFrom, he, List.mem_cons] at h
          obtain rfl | h := h
          · exact List.mem_of_getElem? he
          · exact ih _ h
  exact hmem _ _ h

/-- After a declaration, a class is the declared one or was there before. -/
theorem mem_register (h : t.register decl = .ok t') (he : e ∈ t'.entries) :
    e.decl = decl ∨ ∃ e' ∈ t.entries, e.decl = e'.decl := by
  unfold register at h
  split at h <;> cases h
  obtain ⟨linked, hlinked, rfl⟩ := List.mem_map.mp he
  obtain hdecl | ⟨old, hold, hdecl⟩ := mem_put hlinked
  · exact .inl hdecl
  · exact .inr ⟨old, hold, hdecl⟩

/-! ## Checked tables -/

/-- The table is well formed, and all its classes pass a check. -/
structure Checked (check : ClassDecl → Bool) (t : ClassTable) : Prop where
  wellFormed : t.WellFormed
  decl : ∀ e ∈ t.entries, check e.decl

namespace Checked

variable {check : ClassDecl → Bool}

theorem empty : Checked check {} := ⟨wellFormed_empty, by simp⟩

/-- Registering a class that passes the check keeps a table of classes that pass it. -/
theorem register (h : t.Checked check) (hdecl : check decl) (hok : t.register decl = .ok t') :
    t'.Checked check := by
  refine ⟨h.wellFormed.register hok, fun e he => ?_⟩
  obtain heq | ⟨e', he', heq⟩ := mem_register hok he
  · rwa [heq]
  · rw [heq]
    exact h.decl e' he'

theorem addHosted (h : t.Checked check) {name : String} (hbare : check (.bare name)) :
    (t.addHosted name).Checked check := by
  refine ⟨h.wellFormed.addHosted name, fun e he => ?_⟩
  obtain ⟨old, hold, hdecl, -⟩ | ⟨-, rfl⟩ := mem_addHosted he
  · rw [hdecl]
    exact h.decl old hold
  · exact hbare

theorem foldl_addHosted (h : t.Checked check) (hbare : ∀ name, check (.bare name))
    (names : List String) : (names.foldl (fun t name => t.addHosted name) t).Checked check := by
  induction names generalizing t with
  | nil => exact h
  | cons name names ih => exact ih (h.addHosted (hbare name))

/-- What is handed on from a class to its parent reaches all its ancestors. -/
theorem of_mem_chain (h : t.Checked check) {P : String → Prop}
    (hparent : ∀ decl, check decl → P decl.name → ∀ parent ∈ decl.parent, P parent)
    {name : String} (hname : P name) (he : e ∈ t.chain name) : P e.decl.name := by
  have hchain (steps : Nat) (start : Option Nat)
      (hstart : ∀ i ∈ start, ∀ first, t.entries[i]? = some first → P first.decl.name)
      (he : e ∈ t.chainFrom steps start) : P e.decl.name := by
    induction steps generalizing start with
    | zero => simp [chainFrom] at he
    | succ steps ih =>
      cases start with
      | none => simp [chainFrom] at he
      | some i =>
        cases hi : t.entries[i]? with
        | none => simp [chainFrom, hi] at he
        | some first =>
          have hfirst := hstart i rfl first hi
          simp only [chainFrom, hi, List.mem_cons] at he
          obtain rfl | he := he
          · exact hfirst
          · refine ih first.parent (fun j hj next hnext => ?_) he
            have hmem := List.mem_of_getElem? hi
            obtain ⟨target, htarget, hlink⟩ := h.wellFormed.links first hmem j hj
            cases htarget.symm.trans hnext
            exact hparent _ (h.decl first hmem) hfirst _ hlink
  refine hchain _ _ (fun i hi first hfirst => ?_) he
  obtain ⟨found, hfound, rfl⟩ := indexOf?_spec hi
  cases hfound.symm.trans hfirst
  exact hname

end Checked

end RouteScript.ClassTable
