import Mathlib.Data.List.Chain
import Mathlib.Data.List.Perm.Subperm
import Mathlib.Logic.Relation
import RouteScript.Eval.Builtin

/-!
# Objects that hold each other

An object holds the objects in its fields, also those inside arrays and maps there. A value has a
document unless following its objects never ends, and that takes a circle of objects.
-/

namespace RouteScript

open Relation (TransGen)

namespace Store

def Holds (s : Store) (i j : Nat) : Prop :=
  ∃ field ∈ s.objects.getD i [], ∃ ref ∈ field.2.objects, ref.id = j

/-- Some object holds itself, directly or through others. -/
def HasCycle (s : Store) : Prop := ∃ i, TransGen s.Holds i i

variable {s : Store}

theorem Holds.lt_size {i j : Nat} (h : s.Holds i j) : i < s.objects.size := by
  obtain ⟨field, hfield, -⟩ := h
  by_contra hi
  simp [Array.getD, hi] at hfield

/-- A value whose objects do not come to an end holds a long walk through objects. -/
theorem exists_walk_of_not_endsWithin {depth : Nat} {v : Value}
    (h : ¬ v.endsWithin s.fields depth) :
    ∃ i walk, (∃ ref ∈ v.objects, ref.id = i) ∧ (i :: walk).IsChain s.Holds ∧
      walk.length = depth := by
  induction depth generalizing v with
  | zero =>
    obtain ⟨ref, hmem⟩ := List.exists_mem_of_ne_nil v.objects (by simpa [Value.endsWithin] using h)
    exact ⟨ref.id, [], ⟨ref, hmem, rfl⟩, .singleton _, rfl⟩
  | succ depth ih =>
    simp only [Value.endsWithin, List.all_eq_true, not_forall] at h
    obtain ⟨ref, hmem, field, hfield, hdeep⟩ := h
    obtain ⟨j, walk, ⟨next, hnext, hid⟩, hwalk, hlength⟩ := ih hdeep
    refine ⟨ref.id, j :: walk, ⟨ref, hmem, rfl⟩, ?_, by simp [hlength]⟩
    exact .cons_cons ⟨field, hfield, next, hnext, hid⟩ hwalk

/-- Without a cycle, a walk from object to object meets none twice. -/
theorem nodup_of_not_hasCycle (hacyclic : ¬ s.HasCycle) {walk : List Nat}
    (hwalk : walk.IsChain s.Holds) : walk.Nodup := by
  have hpairwise : walk.Pairwise (TransGen s.Holds) :=
    (hwalk.imp fun _ _ => TransGen.single).pairwise
  refine hpairwise.imp ?_
  rintro i _ hcycle rfl
  exact hacyclic ⟨i, hcycle⟩

/-- All but the last object of a walk exist. -/
theorem forall_mem_dropLast_lt_size {walk : List Nat} (hwalk : walk.IsChain s.Holds) :
    ∀ i ∈ walk.dropLast, i < s.objects.size := by
  induction walk with
  | nil => simp
  | cons i rest ih =>
    cases rest with
    | nil => simp
    | cons j rest =>
      rw [List.isChain_cons_cons] at hwalk
      rw [List.dropLast_cons_cons, List.forall_mem_cons]
      exact ⟨hwalk.1.lt_size, ih hwalk.2⟩

/-- A walk through more objects than there are goes round in a circle. -/
theorem hasCycle_of_not_endsWithin {v : Value}
    (h : ¬ v.endsWithin s.fields (s.objects.size + 1)) : s.HasCycle := by
  by_contra hacyclic
  obtain ⟨i, walk, -, hwalk, hlength⟩ := exists_walk_of_not_endsWithin h
  have hnodup : (i :: walk).dropLast.Nodup :=
    (nodup_of_not_hasCycle hacyclic hwalk).sublist (List.dropLast_sublist _)
  have hsubset : (i :: walk).dropLast ⊆ List.range s.objects.size :=
    fun j hj => List.mem_range.mpr (forall_mem_dropLast_lt_size hwalk j hj)
  have hle := (List.subperm_of_subset hnodup hsubset).length_le
  rw [List.length_dropLast, List.length_cons, List.length_range] at hle
  omega

/-- The objects of a value that is part of a circle never come to an end. -/
theorem not_endsWithin_of_transGen {v : Value} {ref : ObjectRef} (href : ref ∈ v.objects)
    (hcycle : TransGen s.Holds ref.id ref.id) (depth : Nat) : ¬ v.endsWithin s.fields depth := by
  induction depth generalizing v ref with
  | zero =>
    intro h
    rw [Value.endsWithin, List.isEmpty_iff] at h
    simp [h] at href
  | succ depth ih =>
    intro h
    -- the next object on the circle is on the same circle
    obtain ⟨_, hholds, hback⟩ := TransGen.head'_iff.mp hcycle
    obtain ⟨field, hfield, next, hnext, rfl⟩ := id hholds
    simp only [Value.endsWithin, List.all_eq_true] at h
    exact ih hnext (.tail' hback hholds) (h ref href field hfield)

end Store

/-- A value is encoded if it ends within as many steps as there are objects; else the run is given
up. -/
theorem Builtin.encode_eq (v : Value) (t : Task) (s : Store) :
    Builtin.encode v t s =
      .finished (if v.endsWithin s.fields (s.objects.size + 1)
        then .value (.text (s.toJson v).write) else .starved) t s := by
  change (if v.endsWithin s.fields (s.objects.size + 1)
    then (pure (.text (s.toJson v).write) : Script Value) else Script.starve) t s = _
  split <;> rfl

/-- No document is ever made of an object that holds itself. -/
theorem Builtin.encode_starves {s : Store} {ref : ObjectRef}
    (h : TransGen s.Holds ref.id ref.id) (t : Task) :
    Builtin.encode (.object ref) t s = .finished .starved t s := by
  rw [encode_eq, if_neg (Store.not_endsWithin_of_transGen (by simp [Value.objects]) h _)]

end RouteScript
