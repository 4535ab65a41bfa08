import RouteScript.Dict

/-!
# Lookup in dictionaries

What a dictionary holds under a key after it has changed. Taking a key away and writing one
dictionary over another rely on the order of the entries, which all changes keep.
-/

namespace RouteScript.Dict

variable {α : Type} {key other : String} {d : Dict α}

/-- The keys are in strictly increasing order. -/
def Sorted (d : Dict α) : Prop := d.Pairwise fun a b => a.1 < b.1

theorem Sorted.nil : Sorted ([] : Dict α) := List.Pairwise.nil

theorem Sorted.tail {entry : String × α} (h : Sorted (entry :: d)) : Sorted d :=
  (List.pairwise_cons.mp h).2

theorem Sorted.head {entry : String × α} (h : Sorted (entry :: d)) : ∀ e ∈ d, entry.1 < e.1 :=
  (List.pairwise_cons.mp h).1

/-! ## One key -/

/-- A value that is found belongs to an entry of the dictionary. -/
theorem mem_of_get? {value : α} (h : get? key d = some value) : (key, value) ∈ d := by
  fun_induction get? key d <;> simp_all

/-- The later of two values for a key counts. -/
theorem insert_insert (key : String) (value later : α) (d : Dict α) :
    insert key later (insert key value d) = insert key later d := by
  fun_induction insert key value d with
  | case1 => simp [insert]
  | case2 => simp [insert]
  | case3 k v rest hne hlt => simp [insert, hne, hlt]
  | case4 k v rest hne hnlt ih => simp [insert, hne, hnlt, ih]

theorem get?_erase_of_ne (h : other ≠ key) (d : Dict α) :
    get? other (erase key d) = get? other d := by
  fun_induction erase key d with
  | case1 => rfl
  | case2 value rest => simp [get?, Ne.symm h]
  | case3 k value rest _ ih => simp [get?, ih]

/-- A key that is smaller than all others is not there. -/
theorem get?_eq_none_of_lt (h : ∀ e ∈ d, key < e.1) : get? key d = none := by
  induction d with
  | nil => rfl
  | cons entry rest ih =>
    have hne : entry.1 ≠ key := by
      intro heq
      exact String.lt_irrefl key (heq ▸ h entry (List.mem_cons_self ..))
    simp only [get?, if_neg hne]
    exact ih fun e he => h e (List.mem_cons_of_mem _ he)

/-- In a sorted dictionary no second entry of the key comes to light. -/
theorem get?_erase_self (h : Sorted d) : get? key (erase key d) = none := by
  fun_induction erase key d with
  | case1 => rfl
  | case2 value rest => exact get?_eq_none_of_lt h.head
  | case3 k value rest hne ih =>
    simp only [get?, if_neg hne]
    exact ih h.tail

/-! ## Order -/

/-- Inserting adds at most the entry itself. -/
theorem mem_insert {entry : String × α} {value : α} (h : entry ∈ insert key value d) :
    entry = (key, value) ∨ entry ∈ d := by
  fun_induction insert key value d <;> grind

theorem mem_of_mem_erase {entry : String × α} (h : entry ∈ erase key d) : entry ∈ d := by
  fun_induction erase key d <;> grind

/-- Inserting keeps the keys in order. -/
theorem Sorted.insert (h : Sorted d) (key : String) (value : α) :
    Sorted (Dict.insert key value d) := by
  fun_induction Dict.insert key value d with
  | case1 => exact List.pairwise_singleton ..
  | case2 v rest => exact List.pairwise_cons.mpr ⟨h.head, h.tail⟩
  | case3 k v rest hne hlt =>
    refine List.pairwise_cons.mpr ⟨fun e he => ?_, h⟩
    rcases List.mem_cons.mp he with rfl | hmem
    · exact hlt
    · exact String.lt_trans hlt (h.head e hmem)
  | case4 k v rest hne hnlt ih =>
    refine List.pairwise_cons.mpr ⟨fun e he => ?_, ih h.tail⟩
    rcases mem_insert he with rfl | hmem
    · have hle : k ≤ key := String.not_lt.mp hnlt
      exact String.not_le.mp fun hge => hne (String.le_antisymm hge hle)
    · exact h.head e hmem

theorem Sorted.erase (h : Sorted d) (key : String) : Sorted (Dict.erase key d) := by
  fun_induction Dict.erase key d with
  | case1 => exact h
  | case2 value rest => exact h.tail
  | case3 k value rest hne ih =>
    exact List.pairwise_cons.mpr ⟨fun e he => h.head e (mem_of_mem_erase he), ih h.tail⟩

/-! ## Merging -/

/-- A merge prefers the later dictionary. -/
theorem get?_merge {later : Dict α} (h : Sorted later) (key : String) (d : Dict α) :
    get? key (merge d later) = (get? key later).or (get? key d) := by
  induction later generalizing d with
  | nil => rfl
  | cons entry rest ih =>
    obtain ⟨k, v⟩ := entry
    -- the entries behind the first one have other keys, so they do not write over it
    have hrest := ih h.tail (Dict.insert k v d)
    simp only [merge, List.foldl_cons] at hrest ⊢
    rw [hrest, get?_insert]
    by_cases hk : k = key
    · subst hk
      simp [get?, get?_eq_none_of_lt h.head]
    · simp [get?, hk, Ne.symm hk]

/-- A key beyond all others goes to the end. -/
theorem insert_of_forall_lt (h : ∀ e ∈ d, e.1 < key) (value : α) :
    insert key value d = d ++ [(key, value)] := by
  induction d with
  | nil => rfl
  | cons e rest ih =>
    rw [List.forall_mem_cons] at h
    have hne : key ≠ e.1 := fun heq => String.lt_irrefl _ (heq ▸ h.1)
    rw [insert, if_neg hne, if_neg (String.lt_asymm h.1), ih h.2, List.cons_append]

/-- Written behind smaller keys, a dictionary stays as it is. -/
theorem merge_eq_append {acc : Dict α} (h : Sorted (acc ++ d)) : merge acc d = acc ++ d := by
  induction d generalizing acc with
  | nil => simp [merge]
  | cons e rest ih =>
    have hlt : ∀ e' ∈ acc, e'.1 < e.1 := fun e' he' =>
      (List.pairwise_append.mp h).2.2 e' he' e (by simp)
    have hstep : merge acc (e :: rest) = merge (insert e.1 e.2 acc) rest := rfl
    rw [hstep, insert_of_forall_lt hlt, ih (by simpa using h), List.append_assoc]
    rfl

/-- Of several entries for a key the last one counts. -/
theorem get?_ofList (key : String) (entries : List (String × α)) :
    get? key (ofList entries) = (entries.findRev? (·.1 == key)).map Prod.snd := by
  have hmerge (d : Dict α) : get? key (merge d entries) =
      ((entries.findRev? (·.1 == key)).map Prod.snd).or (get? key d) := by
    induction entries generalizing d with
    | nil => rfl
    | cons entry rest ih =>
      have hrest := ih (Dict.insert entry.1 entry.2 d)
      simp only [merge, List.foldl_cons] at hrest ⊢
      rw [hrest, get?_insert, List.findRev?_eq_find?_reverse, List.findRev?_eq_find?_reverse,
        List.reverse_cons, List.find?_append]
      cases rest.reverse.find? (·.1 == key) with
      | some found => simp
      | none => by_cases hkey : key = entry.1 <;> simp [hkey, Ne.symm]
  simp [ofList, hmerge, get?]

/-- A dictionary made from a list is sorted, whatever the order of the list. -/
theorem sorted_ofList (entries : List (String × α)) : Sorted (ofList entries) := by
  have hmerge {d : Dict α} (h : Sorted d) : Sorted (merge d entries) := by
    induction entries generalizing d with
    | nil => exact h
    | cons entry rest ih => exact ih (h.insert entry.1 entry.2)
  exact hmerge .nil

end RouteScript.Dict
