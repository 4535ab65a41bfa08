import RouteScript.Proofs.Decimal.Doubles
import RouteScript.Service.Math
import RouteScript.Value.Operators

/-!
# The extremes of integers

The greatest and the least of several numbers are chosen by their nearest doubles, and of equals the
first is kept. The operators compare integers exactly. So an integer can be chosen that is not the
extreme one, but only among integers with one nearest double, and never if all of them are within
`2 ^ 53`.
-/

namespace RouteScript

open Decimal

/-- The operator compares whole numbers exactly. -/
theorem Value.binary_less_int {a b : Int64} :
    Value.binary .less (.int a) (.int b) = .ok (.bool true) ↔ a.toInt < b.toInt := by
  have hless : Value.binary .less (.int a) (.int b) = .ok (.bool (compare a b == .lt)) := rfl
  rw [hless, Except.ok.injEq, Value.bool.injEq, beq_iff_eq, ← Int64.lt_iff_toInt_lt]
  exact compareOfLessAndEq_eq_lt

namespace Service.Math

/-- The first of the integers that have the greatest key. -/
def IsFirstGreatest (key : Int64 → Int) (ns : List Int64) (m : Int64) : Prop :=
  ∃ before later, ns = before ++ m :: later ∧
    (∀ x ∈ before, key x < key m) ∧ ∀ x ∈ later, key x ≤ key m

def Ranks (beats : Float → Float → Bool) (key : Int64 → Int) : Prop :=
  ∀ x y, beats (ofInt64 x) (ofInt64 y) = decide (key y < key x)

/-- The greatest value is sought by the size of the rounded numbers. -/
theorem ranks_greater : Ranks (fun x y => decide (y < x)) fun n => roundedInt n.toInt := by
  intro x y
  exact decide_eq_decide.mpr (ofInt64_lt_iff y x)

/-- The least value is sought the other way round. -/
theorem ranks_less : Ranks (fun x y => decide (x < y)) fun n => -roundedInt n.toInt := by
  intro x y
  exact decide_eq_decide.mpr ((ofInt64_lt_iff x y).trans Int.neg_lt_neg_iff.symm)

section Choice

variable {key : Int64 → Int} {ns : List Int64} {m : Int64}

/-- The first greatest number ranks no lower than any other. -/
theorem IsFirstGreatest.le (h : IsFirstGreatest key ns m) {x : Int64} (hx : x ∈ ns) :
    key x ≤ key m := by
  obtain ⟨before, later, rfl, hbefore, hlater⟩ := h
  rcases List.mem_append.mp hx with hx | hx
  · exact Int.le_of_lt (hbefore x hx)
  · rcases List.mem_cons.mp hx with rfl | hx
    · exact Int.le_refl _
    · exact hlater x hx

theorem IsFirstGreatest.mem (h : IsFirstGreatest key ns m) : m ∈ ns := by
  obtain ⟨before, later, rfl, -⟩ := h
  simp

/-- A first number that ranks as high as any is the one chosen. -/
theorem IsFirstGreatest.eq_head {x : Int64} (h : IsFirstGreatest key (x :: ns) m)
    (hx : key m ≤ key x) : m = x := by
  obtain ⟨before, later, heq, hbefore, -⟩ := h
  cases before with
  | nil => exact (List.cons.inj heq).1.symm
  | cons y before =>
    obtain ⟨rfl, -⟩ := List.cons.inj heq
    exact absurd hx (Int.not_le.mpr (hbefore x (by simp)))

/-- One more candidate is taken only if it beats the integer chosen so far. -/
theorem IsFirstGreatest.next (h : IsFirstGreatest key ns m) (x : Int64) :
    IsFirstGreatest key (ns ++ [x]) (if key m < key x then x else m) := by
  split_ifs with hx
  · refine ⟨ns, [], rfl, ?_, by simp⟩
    intro y hy
    exact Int.lt_of_le_of_lt (h.le hy) hx
  · obtain ⟨before, later, rfl, hbefore, hlater⟩ := h
    refine ⟨before, later ++ [x], by simp, hbefore, ?_⟩
    intro y hy
    rcases List.mem_append.mp hy with hy | hy
    · exact hlater y hy
    · rw [List.mem_singleton.mp hy]
      exact Int.not_lt.mp hx

variable {beats : Float → Float → Bool}

/-- The candidates are gone through from the left. -/
theorem best_integers (hranks : Ranks beats key) (method : Method) (index : Nat)
    (h : IsFirstGreatest key ns m) (rest : List Int64) :
    ∃ r, best method beats index (.int m) (rest.map .int) = .ok (.int r) ∧
      IsFirstGreatest key (ns ++ rest) r := by
  induction rest generalizing index ns m with
  | nil => exact ⟨m, rfl, by rwa [List.append_nil]⟩
  | cons x rest ih =>
    obtain ⟨r, hr, hfirst⟩ := ih (index + 1) (h.next x)
    refine ⟨r, ?_, by simpa using hfirst⟩
    rw [List.map_cons, best]
    simp only [Value.number?, hranks x m, decide_eq_true_eq]
    rwa [apply_ite Value.int] at hr

/-- Among whole numbers, given one by one or as a list, the first of highest rank is chosen. -/
theorem extreme_integers (hranks : Ranks beats key) (method : Method) {args : List Value}
    (hne : ns ≠ []) (hargs : args = ns.map .int ∨ args = [.array (ns.map .int)]) :
    ∃ m, extreme method beats args = .ok (.int m) ∧ IsFirstGreatest key ns m := by
  obtain ⟨n, rest, rfl⟩ := List.exists_cons_of_ne_nil hne
  have hsingle : IsFirstGreatest key [n] n := ⟨[], [], rfl, by simp, by simp⟩
  obtain ⟨m, hm, hfirst⟩ := best_integers hranks method 1 hsingle rest
  refine ⟨m, ?_, hfirst⟩
  rcases hargs with rfl | rfl <;> exact hm

end Choice

theorem call_max (args : List Value) (t : Task) (s : Store) :
    call "max" args t s =
      Script.ofExcept (extreme ⟨"Math", "max"⟩ (fun x y => decide (y < x)) args) t s := rfl

theorem call_min (args : List Value) (t : Task) (s : Store) :
    call "min" args t s =
      Script.ofExcept (extreme ⟨"Math", "min"⟩ (fun x y => decide (x < y)) args) t s := rfl

/-- The greatest and the least of some integers are the first ones whose nearest double is greatest
or least. Where an operator finds one beyond them, both have the same nearest double, and one of the
two is beyond `2 ^ 53`. -/
theorem extremes_by_nearest_double {ns : List Int64} {args : List Value} (hne : ns ≠ [])
    (hargs : args = ns.map .int ∨ args = [.array (ns.map .int)]) (t : Task) (s : Store) :
    (∃ m, call "max" args t s = Script.release (.ok (.int m)) t s ∧
      IsFirstGreatest (fun n => roundedInt n.toInt) ns m ∧
      ∀ x ∈ ns, Value.binary .less (.int m) (.int x) = .ok (.bool true) →
        roundedInt x.toInt = roundedInt m.toInt ∧
          (2 ^ 53 < m.toInt.natAbs ∨ 2 ^ 53 < x.toInt.natAbs)) ∧
    ∃ m, call "min" args t s = Script.release (.ok (.int m)) t s ∧
      IsFirstGreatest (fun n => -roundedInt n.toInt) ns m ∧
      ∀ x ∈ ns, Value.binary .less (.int x) (.int m) = .ok (.bool true) →
        roundedInt x.toInt = roundedInt m.toInt ∧
          (2 ^ 53 < m.toInt.natAbs ∨ 2 ^ 53 < x.toInt.natAbs) := by
  constructor
  · obtain ⟨m, hm, hfirst⟩ := extreme_integers ranks_greater ⟨"Math", "max"⟩ hne hargs
    refine ⟨m, by rw [call_max, hm]; rfl, hfirst, ?_⟩
    intro x hx hless
    exact roundedInt_eq_of_lt (Value.binary_less_int.mp hless) (hfirst.le hx)
  · obtain ⟨m, hm, hfirst⟩ := extreme_integers ranks_less ⟨"Math", "min"⟩ hne hargs
    refine ⟨m, by rw [call_min, hm]; rfl, hfirst, ?_⟩
    intro x hx hless
    have hle : roundedInt m.toInt ≤ roundedInt x.toInt := Int.neg_le_neg_iff.mp (hfirst.le hx)
    obtain ⟨heq, hlarge⟩ := roundedInt_eq_of_lt (Value.binary_less_int.mp hless) hle
    exact ⟨heq.symm, hlarge.symm⟩

/-- Of `2 ^ 53` and the integer after it the smaller one is given as the greatest. -/
theorem extremes_by_nearest_double_neighbours :
    call "max" [.int 9007199254740992, .int 9007199254740993] {} {} =
        Script.release (.ok (.int 9007199254740992)) {} {} ∧
      Value.binary .less (.int 9007199254740992) (.int 9007199254740993) = .ok (.bool true) := by
  obtain ⟨⟨m, hm, hfirst, -⟩, -⟩ :=
    @extremes_by_nearest_double [9007199254740992, 9007199254740993] _ (by simp) (.inl rfl) {} {}
  have hhead : m = 9007199254740992 := by
    refine hfirst.eq_head ?_
    have hmem : m = 9007199254740992 ∨ m = 9007199254740993 := by simpa using hfirst.mem
    rcases hmem with rfl | rfl <;> decide +kernel
  rw [hhead] at hm
  exact ⟨hm, Value.binary_less_int.mpr (by decide)⟩

end Service.Math

end RouteScript
