import RouteScript.Proofs.Eval.PathReads
import RouteScript.Proofs.Value.Plain

/-!
# Loose equality

Loose equality goes by several rules: nil equals nil only, integers go by value, objects and channels
by identity, everything else by its text. On plain data they come to one: two values are equal if
both or neither are nil and their texts are the same, since different integers have different texts.
So loose equality is an equivalence there, and equal subjects choose the same case.

## Main definitions

* `Evaluator.Compares`: the values of cases that a choice may come to compare with its subject.
-/

namespace RouteScript

namespace Value

variable {a b v w x : Value}

/-- Whole numbers have different texts. -/
theorem display_int_inj {m n : Int64} : (Value.int m).display = (Value.int n).display ↔ m = n := by
  constructor
  · intro h
    rw [display, display] at h
    -- Both integers are read back from the one text.
    have hread := Json.number?_toString m Json.delimits_nil
    rw [h, Json.number?_toString n Json.delimits_nil] at hread
    cases hread
    rfl
  · rintro rfl
    rfl

theorem exists_int_of_kind (h : v.kind = .int) : ∃ n, v = .int n := by
  cases v with
  | int n => exact ⟨n, rfl⟩
  | _ => cases h

/-- Without floats, the order of the two values does not matter. -/
theorem looseEq_comm (ha : a.kind ≠ .float) (hb : b.kind ≠ .float) :
    a.looseEq b = b.looseEq a := by
  fun_cases looseEq a b with
  | case1 => rfl
  | case2 b hnil | case3 a hnil =>
    rw [looseEq]
    exact hnil
  | case4 | case8 | case9 => exact BEq.comm
  | case5 | case7 => exact absurd rfl hb
  | case6 => exact absurd rfl ha
  | case10 a b =>
    -- The values are compared by their texts in the other order too.
    fun_cases looseEq b a with
    | case10 => exact BEq.comm
    | _ => grind

/-- What equals plain data has the same text, and is nil if the data is. Between a float and an
integer the text does not matter. -/
theorem looseEq_iff_of_plain (hb : b.Plain) (h : a.kind = .float → b.kind ≠ .int) :
    a.looseEq b = true ↔ a.isNil = b.isNil ∧ a.display = b.display := by
  fun_cases looseEq a b with
  | case1 => simp
  | case2 b hnil => simp [isNil]
  | case3 a hnil => simp [isNil]
  | case4 m n =>
    rw [beq_iff_eq, display_int_inj]
    simp [isNil]
  | case5 | case7 | case8 | case9 => cases hb
  | case6 => exact absurd rfl (h rfl)
  | case10 a b => simp [isNil]

namespace Plain

theorem kind_ne_float (h : v.Plain) : v.kind ≠ .float := by
  cases h <;> simp [kind]

/-- Plain values are loosely equal if they have the same text and either both are nil or none is. -/
theorem looseEq_iff (ha : a.Plain) (hb : b.Plain) :
    a.looseEq b = true ↔ a.isNil = b.isNil ∧ a.display = b.display :=
  looseEq_iff_of_plain hb fun hfloat => absurd hfloat ha.kind_ne_float

/-- On plain values loose equality is an equivalence. -/
theorem looseEq_equivalence :
    Equivalence fun a b : { v : Value // v.Plain } => a.1.looseEq b.1 = true where
  refl a := (looseEq_iff a.2 a.2).mpr ⟨rfl, rfl⟩
  symm {a b} h := by rwa [looseEq_comm b.2.kind_ne_float a.2.kind_ne_float]
  trans {a b c} hab hbc := by
    obtain ⟨hnil, htext⟩ := (looseEq_iff a.2 b.2).mp hab
    obtain ⟨hnil', htext'⟩ := (looseEq_iff b.2 c.2).mp hbc
    exact (looseEq_iff a.2 c.2).mpr ⟨hnil.trans hnil', htext.trans htext'⟩

/-- Equal data is equal to the same values. Only a float can tell an integer from a text. -/
theorem looseEq_congr (hv : v.Plain) (hw : w.Plain) (h : v.looseEq w = true)
    (hx : x.kind = .float → (v.kind = .int ↔ w.kind = .int)) : x.looseEq v = x.looseEq w := by
  obtain ⟨hnil, htext⟩ := (looseEq_iff hv hw).mp h
  by_cases hfloat : x.kind = .float ∧ v.kind = .int
  · -- Both are integers, and of the same text, so they are the same.
    obtain ⟨hfloat, hint⟩ := hfloat
    obtain ⟨m, rfl⟩ := exists_int_of_kind hint
    obtain ⟨n, rfl⟩ := exists_int_of_kind ((hx hfloat).mp hint)
    rw [display_int_inj.mp htext]
  · have hv' : x.kind = .float → v.kind ≠ .int := fun hf hi => hfloat ⟨hf, hi⟩
    have hw' : x.kind = .float → w.kind ≠ .int := fun hf hi => hv' hf ((hx hf).mpr hi)
    rw [Bool.eq_iff_iff, looseEq_iff_of_plain hv hv', looseEq_iff_of_plain hw hw', hnil, htext]

end Plain

end Value

/-! ## Choices -/

/-- What follows a run matters only for the ends that the run may have. -/
theorem Run.bind_congr {α β : Type} {r : Run α} {next next' : α → Task → Store → Run β}
    (h : ∀ a t s, r.Yields (.value a) t s → next a t s = next' a t s) :
    r.bind next = r.bind next' := by
  induction r with
  | finished o t s =>
    cases o with
    | value a => exact h a t s .finished
    | signal x => rfl
    | starved => rfl
  | waiting r s resume ih =>
    have hresume : (fun reply s' => (resume reply s').bind next) =
        fun reply s' => (resume reply s').bind next' := by
      funext reply s'
      exact ih reply s' fun a t s₁ ha => h a t s₁ (.waiting reply s' ha)
    rw [Run.bind, Run.bind, hresume]

namespace Evaluator

variable {ev : Evaluator} {v w : Value} {cases : List (Expr × Block)} {t : Task} {s : Store}

/-- The values of cases that a choice may come to compare with its subject, depending on what it
gets when it waits. -/
inductive Compares (ev : Evaluator) (subject : Value) :
    List (Expr × Block) → Task → Store → Value → Prop
  | here {e : Expr} {body : Block} {rest : List (Expr × Block)} {t t' : Task} {s s' : Store}
    {x : Value} (h : (ev.expr e t s).Yields (.value x) t' s') :
    Compares ev subject ((e, body) :: rest) t s x
  | later {e : Expr} {body : Block} {rest : List (Expr × Block)} {t t' : Task} {s s' : Store}
    {x y : Value} (h : (ev.expr e t s).Yields (.value y) t' s') (differs : y.looseEq subject = false)
    (hrest : Compares ev subject rest t' s' x) : Compares ev subject ((e, body) :: rest) t s x

/-- A choice depends on its subject only through the comparisons that it comes to. -/
theorem selectCase_congr (h : ∀ x, ev.Compares v cases t s x → x.looseEq v = x.looseEq w) :
    ev.selectCase v cases t s = ev.selectCase w cases t s := by
  induction cases generalizing t s with
  | nil => rfl
  | cons entry rest ih =>
    obtain ⟨e, body⟩ := entry
    refine Run.bind_congr fun x t' s' hx => ?_
    rw [← h x (.here hx)]
    cases hsame : x.looseEq v with
    | true => rfl
    | false => exact ih fun y hy => h y (.later hx hsame hy)

/-- Loose equality is symmetric on values that are no floats and an equivalence on plain data.
Subjects of a choice that are equal plain data choose the same case, with the same effects, unless
one of them only is an integer and a case is a float. -/
theorem equal_subjects_choose_alike (ev : Evaluator) :
    (∀ a b : Value, a.kind ≠ .float → b.kind ≠ .float → a.looseEq b = b.looseEq a) ∧
    (Equivalence fun a b : { v : Value // v.Plain } => a.1.looseEq b.1 = true) ∧
    ∀ v w : Value, v.Plain → w.Plain → v.looseEq w = true → ∀ cases t s,
      (∀ x, ev.Compares v cases t s x → x.kind = .float → (v.kind = .int ↔ w.kind = .int)) →
      ev.selectCase v cases t s = ev.selectCase w cases t s := by
  refine ⟨fun a b => Value.looseEq_comm, Value.Plain.looseEq_equivalence, ?_⟩
  intro v w hv hw h cases t s hcases
  exact selectCase_congr fun x hx => hv.looseEq_congr hw h (hcases x hx)

/-- An integer and its text both choose the second case. -/
theorem equal_subjects_choose_alike_integer :
    let ev := withLevels .none 1
    let v : Value := .int (-5)
    let w : Value := .text "-5"
    let cases : List (Expr × Block) := [(.bool true, []), (.text "-5", [.breaks])]
    (v.Plain ∧ w.Plain ∧ v.kind ≠ .float ∧ w.kind ≠ .float ∧ v.looseEq w = true ∧
      ∀ x, ev.Compares v cases {} {} x → x.kind = .float → (v.kind = .int ↔ w.kind = .int)) ∧
    v.looseEq w = w.looseEq v ∧
    ev.selectCase v cases {} {} = ev.selectCase w cases {} {} ∧
    ev.selectCase v cases {} {} = .finished (.value (some [.breaks])) {} {} := by
  intro ev v w cases
  have hv : v.Plain := .int _
  have hw : w.Plain := .text _
  have hequal : v.looseEq w = true := by cbv
  have hcases : ∀ x, ev.Compares v [(.bool true, []), (.text "-5", [.breaks])] {} {} x →
      x.kind = .float → (v.kind = .int ↔ w.kind = .int) := by
    intro x hx hfloat
    cases hx with
    | here h =>
      obtain ⟨hx, -, -⟩ := Run.yields_finished_iff.mp h
      cases hx
      cases hfloat
    | later h _ hrest =>
      obtain ⟨-, rfl, rfl⟩ := Run.yields_finished_iff.mp h
      cases hrest with
      | here h =>
        obtain ⟨hx, -, -⟩ := Run.yields_finished_iff.mp h
        cases hx
        cases hfloat
      | later _ _ hrest => cases hrest
  obtain ⟨hcomm, -, hchoose⟩ := equal_subjects_choose_alike ev
  refine ⟨⟨hv, hw, hv.kind_ne_float, hw.kind_ne_float, hequal, hcases⟩,
    hcomm v w hv.kind_ne_float hw.kind_ne_float, hchoose v w hv hw hequal cases {} {} hcases, ?_⟩
  have hfirst : (Value.bool true).looseEq v = false := by cbv
  have hsecond : (Value.text "-5").looseEq v = true := by cbv
  change (if (Value.bool true).looseEq v = true then _ else _ : Script (Option Block)) {} {} = _
  rw [hfirst]
  change (if (Value.text "-5").looseEq v = true then _ else _ : Script (Option Block)) {} {} = _
  rw [hsecond]
  rfl

/-- Zero and its text are equal, but the case `-0.0` is chosen by the integer only: it is the same
number, of another text. -/
theorem equal_subjects_part_at_negative_zero :
    let ev := withLevels .none 2
    let v : Value := .int 0
    let w : Value := .text "0"
    let cases : List (Expr × Block) := [(.unary .negate (.float 0), [.breaks])]
    v.Plain ∧ w.Plain ∧ v.looseEq w = true ∧
    ev.selectCase v cases {} {} = .finished (.value (some [.breaks])) {} {} ∧
    ev.selectCase w cases {} {} = .finished (.value none) {} {} := by
  intro ev v w cases
  have hw : w.Plain := .text _
  have htext : (Value.float (-0)).display = "-0" := by
    rw [Value.display]
    decide +kernel
  have hsame : (Value.float (-0)).looseEq v = true := by decide +kernel
  have hother : (Value.float (-0)).looseEq w = false := by
    rw [← Bool.not_eq_true, Value.looseEq_iff_of_plain hw (by simp [w, Value.kind]), htext]
    simp [w, Value.display]
  have hselect (u : Value) : ev.selectCase u cases {} {} =
      if (Value.float (-0)).looseEq u = true then .finished (.value (some [.breaks])) {} {}
      else .finished (.value none) {} {} := by
    change (if (Value.float (-0)).looseEq u = true then return some [.breaks] else return none :
      Script (Option Block)) {} {} = _
    split <;> rfl
  exact ⟨.int _, hw, by cbv, by rw [hselect, if_pos hsame], by rw [hselect, hother]; rfl⟩

end Evaluator

end RouteScript
