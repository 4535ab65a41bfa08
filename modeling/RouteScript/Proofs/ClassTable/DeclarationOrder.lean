import RouteScript.Proofs.ClassTable.Links

/-!
# Order of declarations

New classes may be declared in any order, children before their parents or after them. Whether they
are all accepted depends on the declared parents as a whole, and so does what is found along the
chains afterwards. Only the places of the classes in the table differ.
-/

namespace RouteScript

/-- What is known of a class apart from its link: its declaration, and whether it is hosted. -/
def ClassEntry.description (e : ClassEntry) : ClassDecl × Bool := (e.decl, e.hosted)

namespace ClassTable

open Relation

/-- Register declarations one after the other, until one is refused. -/
def registerAll : List ClassDecl → ClassTable → Except Fault ClassTable
  | [], t => .ok t
  | decl :: rest, t => (t.register decl).bind (registerAll rest)

/-- The declarations are of different classes, none of which the table has. -/
structure Lacks (decls : List ClassDecl) (t : ClassTable) : Prop where
  nodup : (decls.map (·.name)).Nodup
  not_contains : ∀ decl ∈ decls, ¬ t.contains decl.name

def described? (name : String) (t : ClassTable) : Option (ClassDecl × Bool) :=
  (t.get? name).map ClassEntry.description

def describedWith? (decls : List ClassDecl) (t : ClassTable) (name : String) :
    Option (ClassDecl × Bool) :=
  ((decls.find? (·.name == name)).map (·, false)).or (t.described? name)

def parentsWith? (decls : List ClassDecl) (t : ClassTable) (name : String) : Option String :=
  (t.describedWith? decls name).bind (·.1.parent)

variable {t t' : ClassTable} {decl : ClassDecl} {decls decls' : List ClassDecl} {name : String}

/-! ## Descriptions -/

theorem parentOf?_eq (t : ClassTable) (name : String) :
    t.parentOf? name = (t.described? name).bind (·.1.parent) := by
  cases h : t.get? name <;> simp [parentOf?, described?, h, ClassEntry.description]

theorem contains_eq (t : ClassTable) (name : String) :
    t.contains name = (t.described? name).isSome := by
  rw [contains_eq_isSome, described?, Option.isSome_map]

/-- Renewing the links changes no description. -/
theorem described?_relink (name : String) (t : ClassTable) :
    t.relink.described? name = t.described? name := by
  rw [described?, relink, get?_map, Option.map_map, described?]
  rfl

/-- A new class is described by its declaration, and all others stay as they are. -/
theorem described?_register (hnew : ¬ t.contains decl.name) (hok : t.register decl = .ok t')
    (name : String) :
    t'.described? name = if name = decl.name then some (decl, false) else t.described? name := by
  have hnone : t.get? decl.name = none := get?_eq_none_iff.mpr (mt contains_iff.mpr hnew)
  unfold register at hok
  split at hok
  · cases hok
  · cases hok
    rw [described?_relink, described?, put, get?_upsert, described?]
    split
    · rw [hnone]
      rfl
    · rfl

namespace Lacks

theorem head (h : t.Lacks (decl :: decls)) : ¬ t.contains decl.name :=
  h.not_contains decl (by simp)

theorem ne_head (h : t.Lacks (decl :: decls)) {other : ClassDecl} (hother : other ∈ decls) :
    other.name ≠ decl.name := by
  intro heq
  exact (List.nodup_cons.mp h.nodup).1 (List.mem_map.mpr ⟨other, hother, heq⟩)

/-- A declaration leaves the table without the classes still to come. -/
theorem tail (h : t.Lacks (decl :: decls)) (hok : t.register decl = .ok t') : t'.Lacks decls where
  nodup := (List.nodup_cons.mp h.nodup).2
  not_contains other hother := by
    rw [contains_eq, described?_register h.head hok, if_neg (h.ne_head hother), ← contains_eq]
    exact h.not_contains other (List.mem_cons_of_mem _ hother)

theorem perm (h : t.Lacks decls) (hperm : decls.Perm decls') : t.Lacks decls' where
  nodup := (hperm.map _).nodup_iff.mp h.nodup
  not_contains decl hdecl := h.not_contains decl (hperm.mem_iff.mpr hdecl)

/-- A name leads to the declaration that carries it. -/
theorem find?_eq_some_iff (h : t.Lacks decls) :
    decls.find? (·.name == name) = some decl ↔ decl ∈ decls ∧ decl.name = name := by
  constructor
  · intro hfind
    exact ⟨List.mem_of_find?_eq_some hfind, by simpa using List.find?_some hfind⟩
  · rintro ⟨hmem, rfl⟩
    obtain ⟨found, hfound⟩ : ∃ found, decls.find? (·.name == decl.name) = some found :=
      Option.isSome_iff_exists.mp (List.find?_isSome.mpr ⟨decl, hmem, by simp⟩)
    have hname : found.name = decl.name := by simpa using List.find?_some hfound
    rw [hfound, List.inj_on_of_nodup_map h.nodup (List.mem_of_find?_eq_some hfound) hmem hname]

/-- A declaration may be counted among the new ones or among those in the table. -/
theorem describedWith?_tail (h : t.Lacks (decl :: decls)) (hok : t.register decl = .ok t')
    (name : String) : t'.describedWith? decls name = t.describedWith? (decl :: decls) name := by
  rw [describedWith?, describedWith?, described?_register h.head hok]
  by_cases hname : name = decl.name
  · subst hname
    have hnone : decls.find? (·.name == decl.name) = none := by
      simpa using fun other hother => h.ne_head hother
    simp [hnone]
  · simp [hname, Ne.symm hname]

/-- The order of new declarations does not matter to the descriptions. -/
theorem describedWith?_perm (h : t.Lacks decls) (hperm : decls.Perm decls') :
    t.describedWith? decls = t.describedWith? decls' := by
  funext name
  have hfind : decls.find? (·.name == name) = decls'.find? (·.name == name) := by
    ext decl
    rw [h.find?_eq_some_iff, (h.perm hperm).find?_eq_some_iff, hperm.mem_iff]
  rw [describedWith?, describedWith?, hfind]

/-- New declarations leave the parents that are there. -/
theorem parentsWith?_of_parentOf? (h : t.Lacks decls) {parent : String}
    (hparent : t.parentOf? name = some parent) : t.parentsWith? decls name = some parent := by
  have hcontains : t.contains name := contains_iff.mpr (mem_names_of_parentOf? hparent)
  have hnone : decls.find? (·.name == name) = none := by
    refine List.find?_eq_none.mpr fun decl hdecl heq => h.not_contains decl hdecl ?_
    rwa [beq_iff_eq.mp heq]
  rw [parentsWith?, describedWith?, hnone, Option.map_none, Option.none_or, ← parentOf?_eq, hparent]

end Lacks

/-! ## Registering -/

/-- More parents never undo a cycle. -/
theorem HasCycle.mono {parent? parent'? : String → Option String} (h : HasCycle parent?)
    (hle : ∀ name parent, parent? name = some parent → parent'? name = some parent) :
    HasCycle parent'? := by
  obtain ⟨name, hcycle⟩ := h
  exact ⟨name, TransGen.mono hle _ _ hcycle⟩

/-- Registering a list succeeds if its head does and, in the table so reached, its tail. -/
theorem registerAll_cons_eq_ok_iff {t'' : ClassTable} :
    t.registerAll (decl :: decls) = .ok t'' ↔
      ∃ t', t.register decl = .ok t' ∧ t'.registerAll decls = .ok t'' := by
  rw [registerAll]
  cases t.register decl <;> simp [Except.bind]

/-- A declaration that closes a cycle with those before it closes one with all of them. -/
theorem Lacks.hasCycle_parentsWith? (h : t.Lacks (decl :: decls))
    (hcycle : HasCycle (t.parentWith? decl)) : HasCycle (t.parentsWith? (decl :: decls)) := by
  refine hcycle.mono fun name parent hparent => ?_
  by_cases hname : name = decl.name
  · subst hname
    rw [parentWith?_self] at hparent
    simp [parentsWith?, describedWith?, hparent]
  · exact h.parentsWith?_of_parentOf? ((parentWith?_of_ne hname).symm.trans hparent)

/-- New declarations are all accepted, in the order given, exactly if they close no cycle
together. -/
theorem exists_registerAll_eq_ok_iff (h : t.WellFormed) (hnew : t.Lacks decls) :
    (∃ t', t.registerAll decls = .ok t') ↔ ¬ HasCycle (t.parentsWith? decls) := by
  induction decls generalizing t with
  | nil =>
    have hparents : t.parentsWith? [] = t.parentOf? := by
      funext name
      simp [parentsWith?, describedWith?, parentOf?_eq]
    rw [hparents]
    exact ⟨fun _ => h.acyclic, fun _ => ⟨t, rfl⟩⟩
  | cons decl rest ih =>
    by_cases hcycle : HasCycle (t.parentWith? decl)
    · refine iff_of_false ?_ (not_not.mpr (hnew.hasCycle_parentsWith? hcycle))
      rintro ⟨t'', hok⟩
      obtain ⟨t', hregister, -⟩ := registerAll_cons_eq_ok_iff.mp hok
      exact ((register_eq_ok_iff h.acyclic).mp hregister).1 hcycle
    · obtain ⟨t', hregister⟩ : ∃ t', t.register decl = .ok t' :=
        ⟨_, (register_eq_ok_iff h.acyclic).mpr ⟨hcycle, rfl⟩⟩
      have hparents : t'.parentsWith? rest = t.parentsWith? (decl :: rest) := by
        funext name
        rw [parentsWith?, parentsWith?, hnew.describedWith?_tail hregister]
      rw [← hparents, ← ih (h.register hregister) (hnew.tail hregister)]
      simp [registerAll_cons_eq_ok_iff, hregister]

/-- A table after new declarations is described by them and by what was there before. -/
theorem registerAll_spec (h : t.WellFormed) (hnew : t.Lacks decls)
    (hok : t.registerAll decls = .ok t') :
    t'.WellFormed ∧ ∀ name, t'.described? name = t.describedWith? decls name := by
  induction decls generalizing t with
  | nil =>
    cases hok
    exact ⟨h, fun name => by simp [describedWith?]⟩
  | cons decl rest ih =>
    obtain ⟨t₁, hregister, hok⟩ := registerAll_cons_eq_ok_iff.mp hok
    obtain ⟨hwell, hdescribed⟩ := ih (h.register hregister) (hnew.tail hregister) hok
    exact ⟨hwell, fun name => (hdescribed name).trans (hnew.describedWith?_tail hregister name)⟩

/-- The last declaration makes all links current. -/
theorem linksCurrent_of_registerAll (hne : decls ≠ []) (hok : t.registerAll decls = .ok t') :
    t'.LinksCurrent := by
  induction decls generalizing t with
  | nil => exact absurd rfl hne
  | cons decl rest ih =>
    obtain ⟨t₁, hregister, hok⟩ := registerAll_cons_eq_ok_iff.mp hok
    cases rest with
    | nil =>
      cases hok
      exact linksCurrent_of_register hregister
    | cons => exact ih (by simp) hok

/-! ## Chains -/

/-- Tables with current links and the same descriptions have the same chains, but for the links. The
induction is on the length of a chain. -/
theorem map_description_chain (h : t.WellFormed) (h' : t'.WellFormed) (hcurrent : t.LinksCurrent)
    (hcurrent' : t'.LinksCurrent) (hsame : ∀ name, t.described? name = t'.described? name)
    (name : String) :
    (t.chain name).map ClassEntry.description = (t'.chain name).map ClassEntry.description := by
  induction hlength : (t.chain name).length using Nat.strong_induction_on generalizing name with
  | _ length ih =>
    have hdescribed := hsame name
    unfold described? at hdescribed
    cases he : t.get? name with
    | none =>
      have he' : t'.get? name = none := by simpa [he] using hdescribed.symm
      rw [chain_eq_nil he, chain_eq_nil he']
    | some e =>
      obtain ⟨e', he', hdescription⟩ :
          ∃ e', t'.get? name = some e' ∧ e'.description = e.description := by
        simpa [he] using hdescribed.symm
      have hdecl : e'.decl = e.decl := congrArg Prod.fst hdescription
      rw [chain_eq_cons h hcurrent he] at hlength ⊢
      rw [chain_eq_cons h' hcurrent' he', List.map_cons, List.map_cons, hdescription, hdecl]
      cases hparent : e.decl.parent with
      | none => rfl
      | some parent =>
        rw [hparent] at hlength
        exact congrArg _ (ih _ (by simp [← hlength]) parent rfl)

/-- What is found along a chain depends on the descriptions of its classes only. -/
theorem lookups_eq_of_chain
    (h : (t.chain name).map ClassEntry.description = (t'.chain name).map ClassEntry.description) :
    (t.chain name).map (·.decl.name) = (t'.chain name).map (·.decl.name) ∧
      (∀ method, t.findMethod? name method = t'.findMethod? name method) ∧
      (∀ ancestor, t.isA name ancestor = t'.isA name ancestor) ∧
      t.hostedAncestor? name = t'.hostedAncestor? name := by
  refine ⟨?_, fun method => ?_, fun ancestor => ?_, ?_⟩
  · have hnames := congrArg (List.map (·.1.name)) h
    simp only [List.map_map] at hnames
    exact hnames
  · have hfound := congrArg (List.findSome? (·.1.method? method)) h
    simp only [List.findSome?_map] at hfound
    exact hfound
  · have hfound := congrArg (List.any · (·.1.name == ancestor)) h
    simp only [List.any_map] at hfound
    exact hfound
  · have hfound := congrArg (fun l => (l.find? (·.2)).map (·.1.name)) h
    simp only [List.find?_map, Option.map_map] at hfound
    exact hfound

/-! ## Any order -/

/-- A script registers its classes one after the other, before anything else in it runs. -/
theorem declareAll_eq_iff (decls : List ClassDecl) (task : Task) (s s' : Store) :
    Evaluator.declareAll (decls.map .classDef) task s = .finished (.value ()) task s' ↔
      ∃ t', s.classes.registerAll decls = .ok t' ∧ s' = { s with classes := t' } := by
  induction decls generalizing s with
  | nil => simp [Evaluator.declareAll, registerAll, Pure.pure, Script.pure, eq_comm]
  | cons decl rest ih =>
    change Script.bind (Evaluator.declareClass decl) _ task s = _ ↔ _
    rw [Script.bind]
    cases hregister : s.classes.register decl with
    | error fault => simp [declareClass_of_error hregister, Run.bind, registerAll, hregister,
        Except.bind]
    | ok t₁ =>
      have hdeclare : Evaluator.declareClass decl task s =
          .finished (.value ()) task { s with classes := t₁ } := by
        change Script.bind (Script.ofExcept (s.classes.register decl)) _ task s = _
        rw [hregister]
        rfl
      simp only [hdeclare, Run.bind, ih, registerAll, hregister, Except.bind]

/-- New classes are accepted in one order exactly if they are in any other, by a script as well, and
then both orders lead to the same answers about all classes. -/
theorem declaration_order_irrelevant (h : t.Reachable) (hnew : t.Lacks decls)
    (hperm : decls.Perm decls') :
    ((∃ t₁, t.registerAll decls = .ok t₁) ↔ ∃ t₂, t.registerAll decls' = .ok t₂) ∧
    (∀ (task : Task) (s : Store), s.classes = t →
      ((∃ s₁, Evaluator.declareAll (decls.map .classDef) task s = .finished (.value ()) task s₁) ↔
        ∃ s₂, Evaluator.declareAll (decls'.map .classDef) task s =
          .finished (.value ()) task s₂)) ∧
    ∀ t₁ t₂, t.registerAll decls = .ok t₁ → t.registerAll decls' = .ok t₂ → ∀ name,
      t₁.contains name = t₂.contains name ∧
      (t₁.chain name).map (·.decl.name) = (t₂.chain name).map (·.decl.name) ∧
      (∀ method, t₁.findMethod? name method = t₂.findMethod? name method) ∧
      (∀ ancestor, t₁.isA name ancestor = t₂.isA name ancestor) ∧
      t₁.hostedAncestor? name = t₂.hostedAncestor? name := by
  have hwell := h.wellFormed
  have hnew' := hnew.perm hperm
  have hparents : t.parentsWith? decls = t.parentsWith? decls' := by
    funext name
    rw [parentsWith?, parentsWith?, hnew.describedWith?_perm hperm]
  have haccepted : (∃ t₁, t.registerAll decls = .ok t₁) ↔ ∃ t₂, t.registerAll decls' = .ok t₂ := by
    rw [exists_registerAll_eq_ok_iff hwell hnew, exists_registerAll_eq_ok_iff hwell hnew', hparents]
  refine ⟨haccepted, ?_, fun t₁ t₂ hok₁ hok₂ name => ?_⟩
  · rintro task s rfl
    simpa [declareAll_eq_iff, exists_comm] using haccepted
  · obtain ⟨hwell₁, hdescribed₁⟩ := registerAll_spec hwell hnew hok₁
    obtain ⟨hwell₂, hdescribed₂⟩ := registerAll_spec hwell hnew' hok₂
    have hsame (name : String) : t₁.described? name = t₂.described? name := by
      rw [hdescribed₁, hdescribed₂, hnew.describedWith?_perm hperm]
    refine ⟨by rw [contains_eq, contains_eq, hsame], lookups_eq_of_chain ?_⟩
    cases decls with
    | nil =>
      -- without any declaration the links may be out of date, but then nothing has changed
      obtain rfl := hperm.nil_eq
      cases hok₁
      cases hok₂
      rfl
    | cons decl rest =>
      have hne : decls' ≠ [] := fun heq => by simp [heq] at hperm
      exact map_description_chain hwell₁ hwell₂ (linksCurrent_of_registerAll (by simp) hok₁)
        (linksCurrent_of_registerAll hne hok₂) hsame name

/-- Two classes above one that waits for them take other places in the other order, and the chain is
the same. -/
theorem declaration_order_irrelevant_waiting :
    let puppy : ClassDecl := ⟨"Puppy", some "Dog", [], []⟩
    let dog : ClassDecl := ⟨"Dog", some "Animal", [], []⟩
    let animal : ClassDecl := ⟨"Animal", none, [], []⟩
    let t : ClassTable := declareAll [puppy] {}
    t.Reachable ∧ t.Lacks [dog, animal] ∧ ∃ t₁ t₂, t.registerAll [dog, animal] = .ok t₁ ∧
      t.registerAll [animal, dog] = .ok t₂ ∧ t₁.indexOf? "Dog" ≠ t₂.indexOf? "Dog" ∧
      (t₁.chain "Puppy").map (·.decl.name) = (t₂.chain "Puppy").map (·.decl.name) := by
  intro puppy dog animal t
  have hok : register puppy {} = .ok t := rfl
  have hreach : t.Reachable := .register .empty hok
  have hnew : t.Lacks [dog, animal] :=
    ⟨by simp [dog, animal], by simp [dog, animal]; decide⟩
  have hfirst : t.registerAll [dog, animal] = .ok (t.declareAll [dog, animal]) := rfl
  have hsecond : t.registerAll [animal, dog] = .ok (t.declareAll [animal, dog]) := by
    unfold t animal dog puppy
    rfl
  have hsame := (declaration_order_irrelevant hreach hnew (.swap animal dog [])).2.2 _ _ hfirst
    hsecond
  exact ⟨hreach, hnew, _, _, hfirst, hsecond, by decide, (hsame "Puppy").2.1⟩

end ClassTable

end RouteScript
