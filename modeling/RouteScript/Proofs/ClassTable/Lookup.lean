import Mathlib.Data.List.Nodup
import RouteScript.ClassTable

/-!
# Lookup in class tables

What the names, the places and the declared parents of the classes are after a table has changed.
All three depend on the declarations only, never on the links.
-/

namespace RouteScript.ClassTable

/-- The declared parent of a class, by name. -/
def parentOf? (t : ClassTable) (name : String) : Option String :=
  (t.get? name).bind (·.decl.parent)

/-- The declared parents once a declaration has been added, in place of an earlier one for the same
class. -/
def parentWith? (decl : ClassDecl) (t : ClassTable) (name : String) : Option String :=
  if name = decl.name then decl.parent else t.parentOf? name

variable {t : ClassTable} {name : String} {e : ClassEntry} {i : Nat}

/-! ## Places and entries -/

@[simp] theorem length_names (t : ClassTable) : t.names.length = t.size := by
  simp [names, size]

theorem indexOf?_eq_none_iff : t.indexOf? name = none ↔ name ∉ t.names := by
  rw [indexOf?_eq, List.findIdx?_eq_none_iff]
  simp only [beq_eq_false_iff_ne]
  exact ⟨fun h hmem => h name hmem rfl, fun h other hmem heq => h (heq ▸ hmem)⟩

theorem contains_iff : t.contains name ↔ name ∈ t.names := by
  rw [contains, Option.isSome_iff_ne_none, ne_eq, indexOf?_eq_none_iff, not_not]

theorem get?_eq_getElem? (h : t.indexOf? name = some i) : t.get? name = t.entries[i]? := by
  rw [get?, h, Option.bind_some]

/-- A name leads to a class that carries it. -/
theorem get?_spec (h : t.get? name = some e) : e ∈ t.entries ∧ e.decl.name = name := by
  obtain ⟨i, hi, he⟩ := Option.bind_eq_some_iff.mp h
  obtain ⟨e', he', hname⟩ := indexOf?_spec hi
  cases he.symm.trans he'
  exact ⟨List.mem_of_getElem? he, hname⟩

theorem get?_eq_none_iff : t.get? name = none ↔ name ∉ t.names := by
  rw [← indexOf?_eq_none_iff]
  cases hi : t.indexOf? name with
  | none => simp [get?, hi]
  | some i =>
    obtain ⟨e, he, -⟩ := indexOf?_spec hi
    simp [get?_eq_getElem? hi, he]

/-- A table contains the names that lead to a class. -/
theorem contains_eq_isSome (name : String) (t : ClassTable) :
    t.contains name = (t.get? name).isSome := by
  rw [Bool.eq_iff_iff, contains_iff, Option.isSome_iff_ne_none, ne_eq, get?_eq_none_iff, not_not]

/-- Where names are unique, a name leads to the entry that carries it. -/
theorem get?_of_mem (hnodup : t.names.Nodup) (h : e ∈ t.entries) :
    t.get? e.decl.name = some e := by
  cases hfound : t.get? e.decl.name with
  | none => exact absurd (List.mem_map_of_mem h) (get?_eq_none_iff.mp hfound)
  | some e' =>
    obtain ⟨hmem, hname⟩ := get?_spec hfound
    rw [List.inj_on_of_nodup_map hnodup hmem h hname]

/-- Where names are unique, a name has the place of the entry that carries it. -/
theorem indexOf?_eq_some_iff (hnodup : t.names.Nodup) :
    t.indexOf? name = some i ↔ ∃ e, t.entries[i]? = some e ∧ e.decl.name = name := by
  refine ⟨indexOf?_spec, ?_⟩
  rintro ⟨e, he, rfl⟩
  cases hfound : t.indexOf? e.decl.name with
  | none =>
    exact absurd (List.mem_map_of_mem (List.mem_of_getElem? he)) (indexOf?_eq_none_iff.mp hfound)
  | some j =>
    obtain ⟨e', he', hname⟩ := indexOf?_spec hfound
    have hi : t.names[i]? = some e.decl.name := by simp [names, he]
    have hj : t.names[j]? = some e.decl.name := by simp [names, he', hname]
    have hlt : j < t.names.length := (List.getElem?_eq_some_iff.mp hj).1
    rw [(List.getElem?_inj hlt hnodup).mp (hj.trans hi.symm)]

/-! ## Tables with changed entries -/

section Map

variable {f : ClassEntry → ClassEntry} (hf : ∀ e, (f e).decl.name = e.decl.name)

@[simp] theorem names_map (t : ClassTable) : (t.map f hf).names = t.names := by
  simp [names, map, hf]

theorem get?_map (name : String) (t : ClassTable) :
    (t.map f hf).get? name = (t.get? name).map f := by
  have hget : (t.map f hf).get? name = (t.indexOf? name).bind fun i => (t.entries.map f)[i]? := rfl
  rw [hget, get?]
  cases t.indexOf? name with
  | none => rfl
  | some i => exact List.getElem?_map

end Map

section ModifyAt

variable {f : ClassEntry → ClassEntry}
  (hkeep : ∀ e ∈ t.entries[i]?, (f e).decl.name = e.decl.name)

theorem names_modifyAt : (t.modifyAt i f hkeep).names = t.names := by
  refine List.ext_getElem? fun k => ?_
  rw [names, names, List.getElem?_map, List.getElem?_map, modifyAt, List.getElem?_modify]
  cases hk : t.entries[k]? with
  | none => rfl
  | some old =>
    by_cases h : i = k
    · subst h
      simp [hkeep old hk]
    · simp [h]

/-- Only the name of the class that has changed leads to another one. -/
theorem get?_modifyAt (hi : t.indexOf? name = some i) (other : String) :
    (t.modifyAt i f hkeep).get? other =
      if other = name then (t.get? name).map f else t.get? other := by
  obtain ⟨old, hold, hname⟩ := indexOf?_spec hi
  have hget : (t.modifyAt i f hkeep).get? other =
      (t.indexOf? other).bind fun k => (t.entries.modify i f)[k]? := rfl
  rw [hget, get?_eq_getElem? hi, hold]
  split
  next h => simp [h, hi, hold]
  next h =>
    cases hk : t.indexOf? other with
    | none => simp [get?, hk]
    | some k =>
      have hne : i ≠ k := by
        rintro rfl
        obtain ⟨found, hfound, rfl⟩ := indexOf?_spec hk
        cases hold.symm.trans hfound
        exact h hname
      simp [get?, hk, hne]

end ModifyAt

section Push

variable (hnew : t.indexOf? e.decl.name = none)

theorem names_push : (t.push e hnew).names = t.names ++ [e.decl.name] := by
  simp [names, push]

theorem indexOf?_push (other : String) : (t.push e hnew).indexOf? other =
    if other = e.decl.name then some t.size else t.indexOf? other :=
  Dict.get?_insert ..

/-- Only the name of the class that has been added leads to it. -/
theorem get?_push (other : String) :
    (t.push e hnew).get? other = if other = e.decl.name then some e else t.get? other := by
  rw [get?, indexOf?_push, push]
  split
  next => simp [size]
  next =>
    cases hk : t.indexOf? other with
    | none => simp [get?, hk]
    | some k =>
      obtain ⟨found, hfound, -⟩ := indexOf?_spec hk
      have hlt : k < t.entries.length := (List.getElem?_eq_some_iff.mp hfound).1
      simp [get?, hk, List.getElem?_append_left hlt]

end Push

section Upsert

variable {f : ClassEntry → ClassEntry}
  {hf : ∀ old, old.decl.name = e.decl.name → (f old).decl.name = e.decl.name}

variable (hf) in
/-- Either the class at its place is changed, or the entry comes behind all others. -/
theorem upsert_cases (t : ClassTable) :
    (∃ i, t.indexOf? e.decl.name = some i ∧ ∃ hkeep, t.upsert e f hf = t.modifyAt i f hkeep) ∨
    ∃ hnew, t.upsert e f hf = t.push e hnew := by
  unfold upsert
  split
  next i hi =>
    refine .inl ⟨i, hi, fun old hold => ?_, rfl⟩
    obtain ⟨_, hget, hname⟩ := indexOf?_spec hi
    cases hget.symm.trans hold
    exact (hf old hname).trans hname.symm
  next hnone => exact .inr ⟨hnone, rfl⟩

theorem names_upsert : (t.upsert e f hf).names =
    if e.decl.name ∈ t.names then t.names else t.names ++ [e.decl.name] := by
  obtain ⟨i, hi, hkeep, heq⟩ | ⟨hnew, heq⟩ := upsert_cases hf t
  · have hmem : e.decl.name ∈ t.names := contains_iff.mp (by simp [contains, hi])
    rw [heq, names_modifyAt, if_pos hmem]
  · rw [heq, names_push, if_neg (indexOf?_eq_none_iff.mp hnew)]

/-- After the change the name leads to the changed or added class, and other names lead where they
did. -/
theorem get?_upsert (other : String) : (t.upsert e f hf).get? other =
    if other = e.decl.name then some ((t.get? e.decl.name).elim e f) else t.get? other := by
  obtain ⟨i, hi, hkeep, heq⟩ | ⟨hnew, heq⟩ := upsert_cases hf t
  · obtain ⟨old, hold, -⟩ := indexOf?_spec hi
    rw [heq, get?_modifyAt hkeep hi, get?_eq_getElem? hi, hold]
    rfl
  · rw [heq, get?_push, get?_eq_none_iff.mpr (indexOf?_eq_none_iff.mp hnew)]
    rfl

/-- Where the classes of a changed table come from. -/
theorem mem_upsert {new : ClassEntry} (h : new ∈ (t.upsert e f hf).entries) :
    (∃ old ∈ t.entries, new = old ∨ new = f old) ∨ e.decl.name ∉ t.names ∧ new = e := by
  obtain ⟨i, hi, hkeep, heq⟩ | ⟨hnew, heq⟩ := upsert_cases hf t
  · rw [heq, modifyAt] at h
    obtain ⟨k, hk⟩ := List.mem_iff_getElem?.mp h
    rw [List.getElem?_modify] at hk
    obtain ⟨old, hold, rfl⟩ := Option.map_eq_some_iff.mp hk
    refine .inl ⟨old, List.mem_of_getElem? hold, ?_⟩
    split
    · exact .inr rfl
    · exact .inl rfl
  · rw [heq, push] at h
    obtain h | h := List.mem_append.mp h
    · exact .inl ⟨new, h, .inl rfl⟩
    · exact .inr ⟨indexOf?_eq_none_iff.mp hnew, List.mem_singleton.mp h⟩

/-- The classes of a changed table stay at their places. -/
theorem getElem?_upsert {k : Nat} {old : ClassEntry} (h : t.entries[k]? = some old) :
    (t.upsert e f hf).entries[k]? = some old ∨ (t.upsert e f hf).entries[k]? = some (f old) := by
  obtain ⟨i, hi, hkeep, heq⟩ | ⟨hnew, heq⟩ := upsert_cases hf t
  · rw [heq, modifyAt, List.getElem?_modify, h]
    by_cases hik : i = k <;> simp [hik]
  · have hlt : k < t.entries.length := (List.getElem?_eq_some_iff.mp h).1
    rw [heq, push, List.getElem?_append_left hlt]
    exact .inl h

/-- A new class goes to the end, where its name finds it. -/
theorem upsert_of_not_contains (h : ¬ t.contains e.decl.name) :
    (t.upsert e f hf).entries = t.entries ++ [e] ∧ ∀ other,
      (t.upsert e f hf).indexOf? other =
        if other = e.decl.name then some t.size else t.indexOf? other := by
  obtain ⟨i, hi, -⟩ | ⟨hnew, heq⟩ := upsert_cases hf t
  · simp [contains, hi] at h
  · rw [heq]
    exact ⟨rfl, indexOf?_push hnew⟩

end Upsert

/-! ## Operations -/

@[simp] theorem names_relink (t : ClassTable) : t.relink.names = t.names := names_map _ t

@[simp] theorem parentOf?_relink (t : ClassTable) : t.relink.parentOf? = t.parentOf? := by
  funext name
  rw [parentOf?, relink, get?_map, parentOf?]
  cases t.get? name <;> rfl

theorem names_put (decl : ClassDecl) (t : ClassTable) :
    (t.put decl).names =
      if decl.name ∈ t.names then t.names else t.names ++ [decl.name] :=
  names_upsert

theorem names_addHosted (name : String) (t : ClassTable) :
    (t.addHosted name).names = if name ∈ t.names then t.names else t.names ++ [name] :=
  names_upsert

theorem mem_put {decl : ClassDecl} (h : e ∈ (t.put decl).entries) :
    e.decl = decl ∨ ∃ old ∈ t.entries, e.decl = old.decl := by
  obtain ⟨old, hold, rfl | rfl⟩ | ⟨-, rfl⟩ := mem_upsert h
  · exact .inr ⟨e, hold, rfl⟩
  · exact .inl rfl
  · exact .inl rfl

/-- A hosted class is new and bare, or it was there with the same declaration and link. -/
theorem mem_addHosted (h : e ∈ (t.addHosted name).entries) :
    (∃ old ∈ t.entries, e.decl = old.decl ∧ e.parent = old.parent) ∨
      name ∉ t.names ∧ e = { decl := .bare name, hosted := true } := by
  obtain ⟨old, hold, rfl | rfl⟩ | hnew := mem_upsert h
  · exact .inl ⟨e, hold, rfl, rfl⟩
  · exact .inl ⟨old, hold, rfl, rfl⟩
  · exact .inr hnew

/-- A class stays when the host adds one, and stays hosted. -/
theorem getElem?_addHosted (name : String) {old : ClassEntry} (h : t.entries[i]? = some old) :
    ∃ e, (t.addHosted name).entries[i]? = some e ∧ e.decl = old.decl ∧
      (old.hosted → e.hosted) := by
  obtain hget | hget := getElem?_upsert h
  · exact ⟨old, hget, rfl, id⟩
  · exact ⟨_, hget, rfl, fun _ => rfl⟩

/-- The parents after a declaration are those that the cycle check looks at beforehand. -/
theorem parentOf?_put (decl : ClassDecl) (t : ClassTable) :
    (t.put decl).parentOf? = t.parentWith? decl := by
  funext other
  rw [parentOf?, put, get?_upsert, parentWith?]
  split
  · cases t.get? decl.name <;> rfl
  · rfl

/-- The table after declarations of which none closes a circle. -/
def declareAll (decls : List ClassDecl) (t : ClassTable) : ClassTable :=
  decls.foldl (fun t decl => (t.put decl).relink) t

/-- A bare class has no parent, and the table has none for its name if it is new. -/
theorem parentOf?_addHosted (name : String) (t : ClassTable) :
    (t.addHosted name).parentOf? = t.parentOf? := by
  funext other
  rw [parentOf?, addHosted, get?_upsert, parentOf?]
  split
  next h =>
    rw [h]
    change Option.bind (some ((t.get? name).elim _ _)) _ = (t.get? name).bind _
    cases t.get? name <;> rfl
  next => rfl

end RouteScript.ClassTable
