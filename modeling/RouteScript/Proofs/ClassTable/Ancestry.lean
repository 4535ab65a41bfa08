import Mathlib.Data.List.Chain
import Mathlib.Data.List.Perm.Subperm
import Mathlib.Logic.Relation
import RouteScript.Eval.Statement
import RouteScript.Proofs.ClassTable.Lookup

/-!
# Ancestry in class tables

Registering refuses exactly the declarations that make some class its own ancestor. In every table
that registering leads to, names are unique and links lead to declared parents, so that the way from
a class along the links is finite and is followed to its end.
-/

namespace RouteScript.ClassTable

open Relation

def StepsTo (parent? : String → Option String) (name parent : String) : Prop :=
  parent? name = some parent

/-- Whether some class is its own ancestor. -/
def HasCycle (parent? : String → Option String) : Prop :=
  ∃ name, TransGen (StepsTo parent?) name name

/-- The tables that registering leads to. -/
inductive Reachable : ClassTable → Prop
  | empty : Reachable {}
  | addHosted {t : ClassTable} (name : String) : Reachable t → Reachable (t.addHosted name)
  | register {t t' : ClassTable} {decl : ClassDecl} :
    Reachable t → t.register decl = .ok t' → Reachable t'

/-- From the place of a class along its link. -/
def Links (t : ClassTable) (i j : Nat) : Prop :=
  ∃ e, t.entries[i]? = some e ∧ e.parent = some j

/-- Names are unique, no class is its own ancestor, and links lead to declared parents. -/
structure WellFormed (t : ClassTable) : Prop where
  nodup : t.names.Nodup
  acyclic : ¬ HasCycle t.parentOf?
  links : ∀ e ∈ t.entries, ∀ i, e.parent = some i →
    ∃ e', t.entries[i]? = some e' ∧ e.decl.parent = some e'.decl.name

variable {t : ClassTable} {decl : ClassDecl} {name : String}

/-! ## Walks without a cycle -/

theorem mem_names_of_parentOf? {parent : String} (h : t.parentOf? name = some parent) :
    name ∈ t.names := by
  by_contra hname
  simp [parentOf?, get?_eq_none_iff.mpr hname] at h

/-- Without a cycle, a walk from parent to parent never meets a class twice. -/
theorem nodup_of_isChain {parent? : String → Option String} (hacyclic : ¬ HasCycle parent?)
    {walk : List String} (hwalk : walk.IsChain (StepsTo parent?)) : walk.Nodup := by
  have hpairwise : walk.Pairwise (TransGen (StepsTo parent?)) :=
    (hwalk.imp fun _ _ => TransGen.single).pairwise
  refine hpairwise.imp ?_
  rintro name _ hcycle rfl
  exact hacyclic ⟨name, hcycle⟩

/-- So no walk is longer than the table. -/
theorem length_le_of_isChain (hacyclic : ¬ HasCycle t.parentOf?) {walk : List String}
    (hwalk : walk.IsChain (StepsTo t.parentOf?)) (hnames : ∀ name ∈ walk, name ∈ t.names) :
    walk.length ≤ t.size := by
  have hsub := List.subperm_of_subset (nodup_of_isChain hacyclic hwalk) hnames
  simpa using hsub.length_le

/-! ## Declarations that close a cycle -/

theorem parentWith?_of_ne (h : name ≠ decl.name) : t.parentWith? decl name = t.parentOf? name :=
  if_neg h

@[simp] theorem parentWith?_self (decl : ClassDecl) (t : ClassTable) :
    t.parentWith? decl decl.name = decl.parent :=
  if_pos rfl

/-- A walk to the class that is being declared is noticed, whatever the number of steps. -/
theorem leadsTo_of_reflTransGen
    (h : ReflTransGen (StepsTo (t.parentWith? decl)) name decl.name) (steps : Nat) :
    t.leadsTo decl.name steps (some name) := by
  induction h using ReflTransGen.head_induction_on generalizing steps with
  | refl => cases steps <;> simp [leadsTo]
  | @head name parent hstep _ ih =>
    cases steps with
    | zero => rfl
    | succ steps =>
      by_cases hname : name = decl.name
      · simp [leadsTo, hname]
      · have hparent : (t.get? name).bind (·.decl.parent) = some parent :=
          (parentWith?_of_ne hname).symm.trans hstep
        simp [leadsTo, hparent, ih]

/-- Where the declared parents lead to the class that is being declared, or on for all the steps,
through classes that are registered. -/
theorem walk_of_leadsTo {steps : Nat} (h : t.leadsTo decl.name steps (some name)) :
    ReflTransGen (StepsTo (t.parentWith? decl)) name decl.name ∨
      ∃ walk : List String, walk.length = steps ∧ walk.IsChain (StepsTo t.parentOf?) ∧
        (∀ first ∈ walk.head?, first = name) ∧ ∀ name ∈ walk, name ∈ t.names := by
  induction steps generalizing name with
  | zero => exact .inr ⟨[], by simp⟩
  | succ steps ih =>
    by_cases hname : name = decl.name
    · exact .inl (hname ▸ .refl)
    · simp only [leadsTo, beq_iff_eq, hname, Bool.or_eq_true, false_or] at h
      cases hparent : t.parentOf? name with
      | none =>
        rw [← parentOf?, hparent] at h
        simp [leadsTo] at h
      | some parent =>
        rw [← parentOf?, hparent] at h
        rcases ih h with hreach | ⟨walk, hlength, hwalk, hfirst, hnames⟩
        · exact .inl (.head ((parentWith?_of_ne hname).trans hparent) hreach)
        · refine .inr ⟨name :: walk, by simp [hlength], ?_, by simp, ?_⟩
          · refine List.isChain_cons.mpr ⟨fun first hmem => ?_, hwalk⟩
            rw [hfirst first hmem]
            exact hparent
          · simpa using ⟨mem_names_of_parentOf? hparent, hnames⟩

/-- A walk of the changed parents is a walk of the old ones, unless it passes the class that is
being declared. -/
theorem transGen_parentWith? {parent : String}
    (h : TransGen (StepsTo (t.parentWith? decl)) name parent) :
    TransGen (StepsTo t.parentOf?) name parent ∨
      ReflTransGen (StepsTo (t.parentWith? decl)) name decl.name ∧
        TransGen (StepsTo (t.parentWith? decl)) decl.name parent := by
  induction h using TransGen.head_induction_on with
  | @single name hstep =>
    by_cases hname : name = decl.name
    · exact .inr (hname ▸ ⟨.refl, .single hstep⟩)
    · exact .inl (.single ((parentWith?_of_ne hname).symm.trans hstep))
  | @head name next hstep hrest ih =>
    by_cases hname : name = decl.name
    · exact .inr (hname ▸ ⟨.refl, .head hstep hrest⟩)
    · rcases ih with hold | ⟨hreach, hcycle⟩
      · exact .inl (.head ((parentWith?_of_ne hname).symm.trans hstep) hold)
      · exact .inr ⟨.head hstep hreach, hcycle⟩

/-- The bounded walk finds a cycle exactly if the new declaration closes one. -/
theorem leadsTo_iff_hasCycle (hacyclic : ¬ HasCycle t.parentOf?) (decl : ClassDecl) :
    t.leadsTo decl.name (t.size + 1) decl.parent ↔ HasCycle (t.parentWith? decl) := by
  constructor
  · intro h
    cases hparent : decl.parent with
    | none =>
      rw [hparent] at h
      simp [leadsTo] at h
    | some parent =>
      rw [hparent] at h
      have hstep : StepsTo (t.parentWith? decl) decl.name parent :=
        (parentWith?_self decl t).trans hparent
      rcases walk_of_leadsTo h with hreach | ⟨walk, hlength, hwalk, -, hnames⟩
      · exact ⟨decl.name, .head' hstep hreach⟩
      · have hbound := length_le_of_isChain hacyclic hwalk hnames
        omega
  · rintro ⟨name, hcycle⟩
    -- the cycle passes the new class, since there was none before
    have hself : TransGen (StepsTo (t.parentWith? decl)) decl.name decl.name := by
      rcases transGen_parentWith? hcycle with hold | ⟨hreach, hback⟩
      · exact absurd ⟨name, hold⟩ hacyclic
      · exact hback.trans_left hreach
    obtain ⟨parent, hstep, hreach⟩ := TransGen.head'_iff.mp hself
    rw [StepsTo, parentWith?_self] at hstep
    rw [hstep]
    exact leadsTo_of_reflTransGen hreach _

/-- A declaration is refused exactly if it closes a cycle. -/
theorem register_eq_error_iff (hacyclic : ¬ HasCycle t.parentOf?) (decl : ClassDecl) :
    t.register decl = .error (.inheritanceCycle decl.name) ↔ HasCycle (t.parentWith? decl) := by
  rw [← leadsTo_iff_hasCycle hacyclic, register]
  by_cases h : t.leadsTo decl.name (t.size + 1) decl.parent <;> simp [h]

/-- A declaration that closes no cycle is entered, and all links are renewed. -/
theorem register_eq_ok_iff (hacyclic : ¬ HasCycle t.parentOf?) {t' : ClassTable} :
    t.register decl = .ok t' ↔ ¬ HasCycle (t.parentWith? decl) ∧ t' = (t.put decl).relink := by
  rw [← leadsTo_iff_hasCycle hacyclic, register]
  by_cases h : t.leadsTo decl.name (t.size + 1) decl.parent
  · simp [h]
  · simp [h, eq_comm]

/-! ## Reachable tables -/

theorem nodup_append_new {l : List String} (hnodup : l.Nodup) (name : String) :
    (if name ∈ l then l else l ++ [name]).Nodup := by
  split
  · exact hnodup
  · rename_i hnew
    exact List.nodup_append.mpr ⟨hnodup, by simp, by grind⟩

theorem wellFormed_empty : WellFormed {} where
  nodup := List.nodup_nil
  acyclic := by
    rintro ⟨name, hcycle⟩
    obtain ⟨parent, hstep, -⟩ := TransGen.head'_iff.mp hcycle
    cases hstep
  links := by simp

theorem WellFormed.addHosted (h : t.WellFormed) (name : String) :
    (t.addHosted name).WellFormed where
  nodup := by
    rw [names_addHosted]
    exact nodup_append_new h.nodup name
  acyclic := by
    rw [parentOf?_addHosted]
    exact h.acyclic
  links e he i hlink := by
    obtain ⟨old, hold, hdecl, hparent⟩ | ⟨-, rfl⟩ := mem_addHosted he
    · obtain ⟨target, htarget, hname⟩ := h.links old hold i (hparent ▸ hlink)
      obtain ⟨new, hnew, hsame, -⟩ := getElem?_addHosted name htarget
      exact ⟨new, hnew, by rw [hdecl, hname, hsame]⟩
    · cases hlink

/-- A renewed link leads to the class that the declaration names as its parent. -/
theorem links_relink (t : ClassTable) :
    ∀ e ∈ t.relink.entries, ∀ i, e.parent = some i →
      ∃ e', t.relink.entries[i]? = some e' ∧ e.decl.parent = some e'.decl.name := by
  intro e he i hlink
  obtain ⟨old, -, rfl⟩ := List.mem_map.mp he
  obtain ⟨parent, hparent, hindex⟩ := Option.bind_eq_some_iff.mp hlink
  obtain ⟨target, htarget, rfl⟩ := indexOf?_spec hindex
  exact ⟨_, (List.getElem?_map ..).trans (congrArg _ htarget), hparent⟩

/-- An accepted declaration keeps the table well-formed. -/
theorem WellFormed.register (h : t.WellFormed) {t' : ClassTable}
    (hok : t.register decl = .ok t') : t'.WellFormed := by
  obtain ⟨hacyclic, rfl⟩ := (register_eq_ok_iff h.acyclic).mp hok
  exact {
    nodup := by
      rw [names_relink, names_put]
      exact nodup_append_new h.nodup decl.name
    acyclic := by
      rw [parentOf?_relink, parentOf?_put]
      exact hacyclic
    links := links_relink _ }

/-- Every table that declarations and the host can build is well-formed. -/
theorem Reachable.wellFormed (h : t.Reachable) : t.WellFormed := by
  induction h with
  | empty => exact wellFormed_empty
  | addHosted name _ ih => exact ih.addHosted name
  | register _ hok ih => exact ih.register hok

/-! ## Chains -/

namespace WellFormed

theorem lt_size (h : t.WellFormed) {e : ClassEntry} (he : e ∈ t.entries) {i : Nat}
    (hlink : e.parent = some i) : i < t.size := by
  obtain ⟨target, htarget, -⟩ := h.links e he i hlink
  exact (List.getElem?_eq_some_iff.mp htarget).1

/-- A link leads to the place of the declared parent. -/
theorem stepsTo_of_links (h : t.WellFormed) {i j : Nat} (hlink : t.Links i j) :
    ∃ e e', t.entries[i]? = some e ∧ t.entries[j]? = some e' ∧
      StepsTo t.parentOf? e.decl.name e'.decl.name := by
  obtain ⟨e, he, hparent⟩ := hlink
  have hmem := List.mem_of_getElem? he
  obtain ⟨e', he', hdecl⟩ := h.links e hmem j hparent
  refine ⟨e, e', he, he', ?_⟩
  rw [StepsTo, parentOf?, get?_of_mem h.nodup hmem, Option.bind_some, hdecl]

/-- The links of a well-formed table never lead back to where they started. -/
theorem links_acyclic (h : t.WellFormed) : ¬ ∃ i, TransGen t.Links i i := by
  rintro ⟨i, hcycle⟩
  have hstep : t.Links ≤ Function.onFun (StepsTo t.parentOf?) fun i => (t.names[i]?).getD "" := by
    intro i j hlink
    obtain ⟨e, e', he, he', hstep⟩ := h.stepsTo_of_links hlink
    simpa [names, he, he', Function.onFun] using hstep
  exact h.acyclic ⟨_, TransGen.lift _ hstep i i hcycle⟩

/-- The classes on the way along the links are registered, and each declares the next one as its
parent. -/
theorem chainFrom_spec (h : t.WellFormed) (steps : Nat) (start : Option Nat) :
    (∀ e ∈ t.chainFrom steps start, e ∈ t.entries) ∧
      ((t.chainFrom steps start).map (·.decl.name)).IsChain (StepsTo t.parentOf?) ∧
      ∀ i ∈ start, ∀ e ∈ (t.chainFrom steps start).head?, t.entries[i]? = some e := by
  induction steps generalizing start with
  | zero => simp [chainFrom]
  | succ steps ih =>
    cases start with
    | none => simp [chainFrom]
    | some i =>
      cases he : t.entries[i]? with
      | none => simp [chainFrom, he]
      | some e =>
        obtain ⟨hmem, hchain, hfirst⟩ := ih e.parent
        simp only [chainFrom, he, List.mem_cons, List.map_cons, List.isChain_cons, List.head?_cons,
          List.head?_map]
        refine ⟨?_, ⟨?_, hchain⟩, by simp_all⟩
        · rintro e' (rfl | hrest)
          · exact List.mem_of_getElem? he
          · exact hmem e' hrest
        · intro parent hparent
          obtain ⟨e', he', rfl⟩ := Option.map_eq_some_iff.mp hparent
          cases hlink : e.parent with
          | none => cases steps <;> simp [hlink, chainFrom] at he'
          | some j =>
            obtain ⟨e₁, e₂, h₁, h₂, hstep⟩ := h.stepsTo_of_links ⟨e, he, hlink⟩
            have h₁' : e₁ = e := by simp_all
            have h₂' : e₂ = e' := by
              have := hfirst j hlink e' he'
              simp_all
            rwa [h₁', h₂'] at hstep

/-- A walk along the links meets no name twice, whatever bound it is given. -/
theorem chainFrom_nodup (h : t.WellFormed) (steps : Nat) (start : Option Nat) :
    ((t.chainFrom steps start).map (·.decl.name)).Nodup :=
  nodup_of_isChain h.acyclic (h.chainFrom_spec steps start).2.1

theorem length_chainFrom_le (h : t.WellFormed) (steps : Nat) (start : Option Nat) :
    (t.chainFrom steps start).length ≤ t.size := by
  obtain ⟨hmem, hchain, -⟩ := h.chainFrom_spec steps start
  have hbound := length_le_of_isChain h.acyclic hchain (by
    intro name hname
    obtain ⟨e, he, rfl⟩ := List.mem_map.mp hname
    exact List.mem_map_of_mem (hmem e he))
  simpa using hbound

end WellFormed

/-- A smaller bound on the steps cuts the way short. -/
theorem chainFrom_eq_take (t : ClassTable) {steps more : Nat} (hle : steps ≤ more)
    (start : Option Nat) : t.chainFrom steps start = (t.chainFrom more start).take steps := by
  induction steps generalizing more start with
  | zero => simp [chainFrom]
  | succ steps ih =>
    obtain ⟨more, rfl⟩ : ∃ n, more = n + 1 := ⟨more - 1, by omega⟩
    cases start with
    | none => simp [chainFrom]
    | some i =>
      cases he : t.entries[i]? with
      | none => simp [chainFrom, he]
      | some e => simp [chainFrom, he, ih (Nat.le_of_succ_le_succ hle)]

/-- As many steps as there are classes reach the end of the way. -/
theorem WellFormed.chainFrom_eq (h : t.WellFormed) {steps : Nat} (hle : t.size ≤ steps)
    (start : Option Nat) : t.chainFrom steps start = t.chainFrom t.size start := by
  rw [t.chainFrom_eq_take hle start, List.take_of_length_le (h.length_chainFrom_le steps start)]

/-! ## Registering -/

/-- The statement that declares a class fails with the fault of the table, which it leaves alone. -/
theorem declareClass_of_error {task : Task} {s : Store} {fault : Fault}
    (h : s.classes.register decl = .error fault) :
    Evaluator.declareClass decl task s = .finished (.signal (.failed fault)) task s := by
  change Script.bind (Script.ofExcept (s.classes.register decl)) _ task s = _
  rw [h]
  rfl

/-- A declaration is refused exactly if it makes some class its own ancestor, and the store stays as
it is then; otherwise it joins the declared parents. Names are unique, a name has the place of the
entry that carries it, links stay in range and go round in no circle, and a chain has every class at
most once and is followed to its end. -/
theorem register_refuses_cycles (h : t.Reachable) :
    (∀ decl,
      (t.register decl = .error (.inheritanceCycle decl.name) ↔ HasCycle (t.parentWith? decl)) ∧
      (¬ HasCycle (t.parentWith? decl) →
        ∃ t', t.register decl = .ok t' ∧ t'.parentOf? = t.parentWith? decl) ∧
      (HasCycle (t.parentWith? decl) → ∀ task s, s.classes = t →
        Evaluator.declareClass decl task s =
          .finished (.signal (.failed (.inheritanceCycle decl.name))) task s)) ∧
    t.names.Nodup ∧
    (∀ name i, t.indexOf? name = some i ↔ ∃ e, t.entries[i]? = some e ∧ e.decl.name = name) ∧
    (∀ e ∈ t.entries, ∀ i, e.parent = some i → i < t.size) ∧
    (¬ ∃ i, TransGen t.Links i i) ∧
    ∀ name, ((t.chain name).map (·.decl.name)).Nodup ∧
      ∀ steps, t.size < steps → t.chainFrom steps (t.indexOf? name) = t.chain name := by
  have hwell := h.wellFormed
  refine ⟨fun decl => ⟨register_eq_error_iff hwell.acyclic decl, ?_, ?_⟩, hwell.nodup,
    fun name i => indexOf?_eq_some_iff hwell.nodup, fun e he i => hwell.lt_size he,
    hwell.links_acyclic, fun name => ⟨hwell.chainFrom_nodup _ _, ?_⟩⟩
  · intro hacyclic
    refine ⟨_, (register_eq_ok_iff hwell.acyclic).mpr ⟨hacyclic, rfl⟩, ?_⟩
    rw [parentOf?_relink, parentOf?_put]
  · rintro hcycle task s rfl
    exact declareClass_of_error ((register_eq_error_iff hwell.acyclic decl).mpr hcycle)
  · intro steps hsteps
    rw [chain, hwell.chainFrom_eq hsteps.le, hwell.chainFrom_eq (Nat.le_succ _)]

/-- A parent that is declared after its child closes a cycle if it names the child as its own
parent. -/
theorem register_refuses_cycles_late_parent :
    let dog : ClassDecl := ⟨"Dog", some "Animal", [], []⟩
    let animal : ClassDecl := ⟨"Animal", some "Dog", [], []⟩
    let t : ClassTable := declareAll [dog] {}
    t.Reachable ∧ t.register animal = .error (.inheritanceCycle "Animal") ∧
      HasCycle (t.parentWith? animal) := by
  intro dog animal t
  have hok : register dog {} = .ok t := rfl
  have hreach : t.Reachable := .register .empty hok
  have hrefused : t.register animal = .error (.inheritanceCycle "Animal") := rfl
  exact ⟨hreach, hrefused, ((register_refuses_cycles hreach).1 animal).1.mp hrefused⟩

end RouteScript.ClassTable
