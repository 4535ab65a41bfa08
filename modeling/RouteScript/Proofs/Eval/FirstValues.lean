import RouteScript.Proofs.Dict
import RouteScript.Proofs.Eval.PathReads
import RouteScript.Proofs.Syntax.Tree

/-!
# First values of fields

A new object gets the fields that its class and the ancestors declare. Properties are written one
after the other, those of the remotest ancestor first, so what stays in a field comes from the last
declaration in the nearest class that has one.
-/

namespace RouteScript

open Evaluator

/-! ## Constants -/

namespace Expr

mutual

/-- The value that an expression is written as: a literal, a function, or an array or a map of such
expressions. -/
def constant? : Expr → Option Value
  | .array items => (constants? items).map .array
  | .map pairs => (constantEntries? pairs).map fun entries => .map (Dict.ofList entries)
  | .function decl => some (.function decl)
  | e => e.literalValue?

def constants? : List Expr → Option (List Value)
  | [] => some []
  | e :: rest => do
    let v ← e.constant?
    return v :: (← constants? rest)

def constantEntries? : List (Expr × Expr) → Option (List (String × Value))
  | [] => some []
  | (key, value) :: rest => do
    let k ← key.constant?
    let v ← value.constant?
    return (k.display, v) :: (← constantEntries? rest)

end

end Expr

namespace Evaluator

variable {host : HostHandler} {levels : Nat} {t : Task} {s : Store}

/-- With a level left, an expression is evaluated by its rule. -/
theorem expr_succ (e : Expr) :
    (withLevels host (levels + 1)).expr e t s = (withLevels host levels).evaluate e t s := rfl

/-- A literal evaluates to its value, without a look at the store. -/
theorem evaluate_literal {e : Expr} {v : Value} (h : e.literalValue? = some v)
    (hlevels : e.height ≤ levels) :
    (withLevels host levels).evaluate e t s = .finished (.value v) t s := by
  unfold Expr.literalValue? at h
  split at h <;> cases h
  case h_6 | h_7 =>
    -- the number behind the sign takes a level of its own
    obtain ⟨levels, rfl⟩ : ∃ n, levels = n + 1 := Nat.exists_eq_add_of_le' hlevels
    rfl
  all_goals rfl

/-- The constants with a number of levels are evaluated to their values, and nothing changes. -/
def EvaluatesConstants (host : HostHandler) (levels : Nat) (t : Task) (s : Store) : Prop :=
  ∀ (e : Expr) (v : Value), e.constant? = some v → e.height < levels →
    (withLevels host levels).expr e t s = .finished (.value v) t s

namespace EvaluatesConstants

/-- A list of constants evaluates to the list of their values. -/
theorem exprs (h : EvaluatesConstants host levels t s) {items : List Expr} {values : List Value}
    (hvalues : Expr.constants? items = some values) (hlevels : Expr.heights items < levels) :
    (withLevels host levels).exprs items t s = .finished (.value values) t s := by
  induction items generalizing values with
  | nil =>
    cases hvalues
    rfl
  | cons e rest ih =>
    simp only [Expr.constants?, Option.bind_eq_bind, Option.bind_eq_some_iff, Option.pure_def,
      Option.some.injEq] at hvalues
    obtain ⟨v, hv, vs, hvs, rfl⟩ := hvalues
    rw [Expr.heights] at hlevels
    have hfirst := h e v hv (by omega)
    have hrest := ih hvs (by omega)
    rw [Evaluator.exprs] at hrest ⊢
    simp only [Script.each, Script.bind_apply, hfirst, Run.bind, hrest]
    rfl

/-- A map of constants evaluates to the map of their values, on top of the entries found so far. -/
theorem entries (h : EvaluatesConstants host levels t s) {pairs : List (Expr × Expr)}
    {entries : List (String × Value)} (hentries : Expr.constantEntries? pairs = some entries)
    (hlevels : Expr.pairHeights pairs < levels) (found : Dict Value) :
    (withLevels host levels).entries found pairs t s =
      .finished (.value (Dict.merge found entries)) t s := by
  induction pairs generalizing entries found with
  | nil =>
    cases hentries
    rfl
  | cons pair rest ih =>
    obtain ⟨key, value⟩ := pair
    simp only [Expr.constantEntries?, Option.bind_eq_bind, Option.bind_eq_some_iff, Option.pure_def,
      Option.some.injEq] at hentries
    obtain ⟨k, hk, v, hv, others, hothers, rfl⟩ := hentries
    rw [Expr.pairHeights] at hlevels
    have hkey := h key k hk (by omega)
    have hvalue := h value v hv (by omega)
    have hrest := ih hothers (by omega) (Dict.insert k.display v found)
    simp only [Evaluator.entries, Script.bind_apply, hkey, hvalue, Run.bind, hrest]
    rfl

end EvaluatesConstants

/-- The induction is on the levels, like the evaluation of what stands inside an expression. -/
theorem evaluatesConstants (host : HostHandler) (levels : Nat) (t : Task) (s : Store) :
    EvaluatesConstants host levels t s := by
  induction levels with
  | zero => exact fun e v _ hlevels => absurd hlevels (Nat.not_lt_zero _)
  | succ levels ih =>
    intro e v h hlevels
    rw [expr_succ]
    cases e with
    | array items =>
      obtain ⟨values, hvalues, rfl⟩ := Option.map_eq_some_iff.mp h
      rw [Expr.height] at hlevels
      rw [evaluate, Script.bind_apply, ih.exprs hvalues (by omega)]
      rfl
    | map pairs =>
      obtain ⟨entries, hentries, rfl⟩ := Option.map_eq_some_iff.mp h
      rw [Expr.height] at hlevels
      rw [evaluate, Script.bind_apply, ih.entries hentries (by omega)]
      rfl
    | function decl =>
      cases h
      rfl
    | _ => exact evaluate_literal h (Nat.le_of_lt_succ hlevels)

end Evaluator

/-! ## Properties -/

namespace PropertyDecl

def IsConstant (property : PropertyDecl) : Prop :=
  ∀ e, property.initial = some e → e.constant?.isSome

/-- The value that a property starts with if it is constant: the default, or else the value of its
declared type without one, or else nil. -/
def firstValue? (property : PropertyDecl) : Option Value :=
  property.initial.elim (some (property.typeName.elim .nil fun word => (Tag.ofName word).zero))
    Expr.constant?

def entry (property : PropertyDecl) : String × Value :=
  (property.name, property.firstValue?.getD .nil)

theorem IsConstant.exists_firstValue? {property : PropertyDecl} (h : property.IsConstant) :
    ∃ v, property.firstValue? = some v := by
  obtain ⟨name, typeName, initial⟩ := property
  cases initial with
  | none => exact ⟨_, rfl⟩
  | some e => exact Option.isSome_iff_exists.mp (h e rfl)

theorem findRev?_entry (properties : List PropertyDecl) (field : String) :
    (properties.map entry).findRev? (·.1 == field) =
      (properties.findRev? (·.name == field)).map entry := by
  rw [List.findRev?_eq_find?_reverse, List.findRev?_eq_find?_reverse, ← List.map_reverse,
    List.find?_map]
  rfl

end PropertyDecl

/-! ## The declaration that counts -/

namespace ClassTable

/-- The declaration that a field of a class starts from: the last one in the nearest class that
declares the field. -/
def property? (className field : String) (t : ClassTable) : Option PropertyDecl :=
  (t.chain className).findSome? fun e => e.decl.properties.findRev? (·.name == field)

/-- The properties of a class and its ancestors in the order in which they are written. -/
def properties (className : String) (t : ClassTable) : List PropertyDecl :=
  (t.chain className).reverse.flatMap (·.decl.properties)

/-- All defaults of a class and its ancestors are constants. -/
def HasConstants (className : String) (t : ClassTable) : Prop :=
  ∀ e ∈ t.chain className, ∀ property ∈ e.decl.properties, property.IsConstant

variable {className field : String} {t : ClassTable}

theorem mem_properties_iff {property : PropertyDecl} :
    property ∈ t.properties className ↔ ∃ e ∈ t.chain className, property ∈ e.decl.properties := by
  simp [properties]

/-- Backwards, the properties stand in the order of the chain, so the last one that is written for a
field is the last one in the nearest class. -/
theorem findRev?_properties (className field : String) (t : ClassTable) :
    (t.properties className).findRev? (·.name == field) = t.property? className field := by
  rw [properties, List.findRev?_eq_find?_reverse, List.reverse_flatMap, List.reverse_reverse,
    List.find?_flatMap]
  simp [property?, List.findRev?_eq_find?_reverse]

/-- A field is a property if a class of the chain declares it. -/
theorem isSome_property?_iff :
    (t.property? className field).isSome ↔
      ∃ e ∈ t.chain className, ∃ property ∈ e.decl.properties, property.name = field := by
  simp [property?, List.findSome?_isSome_iff, List.findRev?_eq_find?_reverse]

theorem HasConstants.exists_firstValue? (h : t.HasConstants className) {property : PropertyDecl}
    (hproperty : t.property? className field = some property) :
    ∃ v, property.firstValue? = some v := by
  rw [← findRev?_properties, List.findRev?_eq_find?_reverse] at hproperty
  have hmem := List.mem_reverse.mp (List.mem_of_find?_eq_some hproperty)
  obtain ⟨e, he, hdeclared⟩ := mem_properties_iff.mp hmem
  exact (h e he property hdeclared).exists_firstValue?

/-- Written one after the other, the first values leave in each field that of the declaration it
starts from. -/
theorem HasConstants.get?_ofList (h : t.HasConstants className) (field : String) :
    Dict.get? field (.ofList ((t.properties className).map PropertyDecl.entry)) =
      (t.property? className field).bind PropertyDecl.firstValue? := by
  rw [Dict.get?_ofList, PropertyDecl.findRev?_entry, findRev?_properties]
  cases hproperty : t.property? className field with
  | none => rfl
  | some property =>
    obtain ⟨v, hv⟩ := h.exists_firstValue? hproperty
    simp [PropertyDecl.entry, hv]

end ClassTable

/-! ## New objects -/

/-- Setting a field of the object that was made last changes that object alone. -/
theorem Store.setField_push (s : Store) (fields : Dict Value) (className name : String)
    (value : Value) :
    Store.setField ⟨s.objects.size, className⟩ name value
        { s with objects := s.objects.push fields } =
      { s with objects := s.objects.push (Dict.insert name value fields) } := by
  have hmodify (a : Array (Dict Value)) (f : Dict Value → Dict Value) :
      (a.push fields).modify a.size f = a.push (f fields) := by grind
  simp only [setField, modifyFields, hmodify]

namespace Evaluator

variable {levels : Nat}

/-- A constant default gives its value and changes nothing. -/
theorem initialValue_constant {property : PropertyDecl} {v : Value}
    (hv : property.firstValue? = some v) (hlevels : property.height < levels) (host : HostHandler)
    (t : Task) (s : Store) :
    (withLevels host levels).initialValue property t s = .finished (.value v) t s := by
  obtain ⟨name, typeName, initial⟩ := property
  cases initial with
  | none => cases typeName <;> cases hv <;> rfl
  | some e => exact evaluatesConstants host levels t s e v hv hlevels

/-- The induction is on the properties still to be written; the fields so far are any. -/
theorem fillProperties_constant {properties : List PropertyDecl}
    (h : ∀ property ∈ properties, property.IsConstant ∧ property.height < levels)
    (host : HostHandler) (className : String) (t : Task) (s : Store) (fields : Dict Value) :
    (withLevels host levels).fillProperties ⟨s.objects.size, className⟩ properties t
        { s with objects := s.objects.push fields } =
      .finished (.value ()) t { s with
        objects := s.objects.push (Dict.merge fields (properties.map PropertyDecl.entry)) } := by
  induction properties generalizing fields with
  | nil => rfl
  | cons property rest ih =>
    obtain ⟨hconstant, hlevels⟩ := h property (by simp)
    obtain ⟨v, hv⟩ := hconstant.exists_firstValue?
    have hvalue := initialValue_constant hv hlevels host t
    have hrest := ih (fun other hother => h other (List.mem_cons_of_mem _ hother))
      (Dict.insert property.name v fields)
    simp only [fillProperties, Script.bind_apply, hvalue, Run.bind, Script.modifyStore,
      Store.setField_push, hrest]
    simp [Dict.merge, PropertyDecl.entry, hv]

/-- A new object of a class with constant defaults holds the first values, and nothing else
changes. -/
theorem newObject_constant {s : Store} {className : String}
    (hclass : s.classes.contains className) (h : s.classes.HasConstants className)
    (hlevels : ∀ e ∈ s.classes.chain className, PropertyDecl.heights e.decl.properties < levels)
    (host : HostHandler) (t : Task) :
    (withLevels host levels).newObject className t s =
      .finished (.value ⟨s.objects.size, className⟩) t { s with
        objects := s.objects.push
          (.ofList ((s.classes.properties className).map PropertyDecl.entry)) } := by
  have hproperties : ∀ property ∈ s.classes.properties className,
      property.IsConstant ∧ property.height < levels := by
    intro property hproperty
    obtain ⟨e, he, hmem⟩ := ClassTable.mem_properties_iff.mp hproperty
    have hheight := PropertyDecl.height_le_heights hmem
    exact ⟨h e he property hmem, Nat.lt_of_le_of_lt hheight (hlevels e he)⟩
  have hfill := fillProperties_constant hproperties host className t s []
  rw [ClassTable.properties] at hfill
  simp only [newObject, Script.bind_apply, Script.store, Script.update, Store.newObject, Run.bind,
    if_pos hclass, hfill]
  rfl

end Evaluator

/-- A new object of a class whose defaults are constants has exactly the fields that some class of
the chain declares. A field starts with the value of its last declaration in the nearest class that
declares it. It takes more levels than the defaults have. -/
theorem new_object_first_values {s : Store} {className : String}
    (hclass : s.classes.contains className) (hdefaults : s.classes.HasConstants className) :
    ∃ fields : Dict Value,
      (∀ (host : HostHandler) (levels : Nat) (t : Task),
        (∀ e ∈ s.classes.chain className, PropertyDecl.heights e.decl.properties < levels) →
        (withLevels host levels).newObject className t s =
          .finished (.value ⟨s.objects.size, className⟩) t
            { s with objects := s.objects.push fields }) ∧
      fields.Sorted ∧
      (∀ field, Dict.contains field fields ↔
        ∃ e ∈ s.classes.chain className, ∃ property ∈ e.decl.properties, property.name = field) ∧
      ∀ field, Dict.get? field fields =
        (s.classes.property? className field).bind PropertyDecl.firstValue? := by
  refine ⟨.ofList ((s.classes.properties className).map PropertyDecl.entry),
    fun host levels t hlevels => newObject_constant hclass hdefaults hlevels host t,
    Dict.sorted_ofList _, fun field => ?_, hdefaults.get?_ofList⟩
  rw [Dict.contains, hdefaults.get?_ofList, ← ClassTable.isSome_property?_iff]
  cases hproperty : s.classes.property? className field with
  | none => simp
  | some property =>
    obtain ⟨v, hv⟩ := hdefaults.exists_firstValue? hproperty
    simp [hv]

/-- A class that is declared before its parent: a default hides one of the parent, a type without a
default hides a default, and the later of two declarations counts. -/
theorem new_object_first_values_hidden :
    let animal : ClassDecl := ⟨"Animal", none, [⟨"sound", some "string", some (.text "...")⟩,
      ⟨"legs", some "int", some (.int 4)⟩, ⟨"owner", none, none⟩], []⟩
    let bird : ClassDecl := ⟨"Bird", some "Animal", [⟨"sound", none, some (.text "tweet")⟩,
      ⟨"legs", some "int", none⟩, ⟨"eggs", none, some .nil⟩,
      ⟨"eggs", none, some (.array [.int 2])⟩], []⟩
    let s : Store := { classes := .declareAll [bird, animal] {} }
    s.classes.Reachable ∧ s.classes.HasConstants "Bird" ∧ ∃ fields : Dict Value,
      (withLevels .none 2).newObject "Bird" {} s =
        .finished (.value ⟨0, "Bird"⟩) {} { s with objects := #[fields] } ∧
      Dict.get? "sound" fields = some (.text "tweet") ∧
      Dict.get? "legs" fields = some (.int 0) ∧ Dict.get? "owner" fields = some .nil ∧
      Dict.get? "eggs" fields = some (.array [.int 2]) := by
  intro animal bird s
  have hbird : ClassTable.register bird {} = .ok (.declareAll [bird] {}) := rfl
  have hanimal : ClassTable.register animal (.declareAll [bird] {}) = .ok s.classes := rfl
  have hchain : s.classes.chain "Bird" =
      [{ decl := bird, parent := some 1 }, { decl := animal }] := by
    unfold s bird animal
    rfl
  have hdefaults : s.classes.HasConstants "Bird" := by
    rw [ClassTable.HasConstants, hchain]
    simp [bird, animal, PropertyDecl.IsConstant, Expr.constant?, Expr.constants?,
      Expr.literalValue?]
  have hlevels : ∀ e ∈ s.classes.chain "Bird", PropertyDecl.heights e.decl.properties < 2 := by
    rw [hchain]
    simp [bird, animal, PropertyDecl.heights, PropertyDecl.height, Expr.height, Expr.heights]
  have hcontains : s.classes.contains "Bird" := by decide +kernel
  obtain ⟨fields, hnew, -, -, hget⟩ := new_object_first_values hcontains hdefaults
  simp only [ClassTable.property?, hchain] at hget
  exact ⟨.register (.register .empty hbird) hanimal, hdefaults, fields, hnew .none 2 {} hlevels,
    hget "sound", hget "legs", hget "owner", hget "eggs"⟩

end RouteScript
