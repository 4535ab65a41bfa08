import RouteScript.Proofs.Dict
import RouteScript.Proofs.Json.Scalars

/-!
# Documents read back

A document without floats is read back from its written form, as long as its containers are not
nested too deeply. Its parts are read in front of whatever may stand behind them, so a container is
read part by part.
-/

namespace RouteScript

namespace Json

open Text

variable {depth : Nat} {j : Json} {items : List Json} {entries : List (String × Json)}
  {rest : List Char}

/-- Documents without floats, with at most `depth` containers inside each other. The entries of
their objects are in the order of the keys. -/
inductive Exact : Nat → Json → Prop where
  | null {depth : Nat} : Exact depth .null
  | bool {depth : Nat} (b : Bool) : Exact depth (.bool b)
  | int {depth : Nat} (n : Int64) : Exact depth (.int n)
  | text {depth : Nat} (s : String) : Exact depth (.text s)
  | array {depth : Nat} {items : List Json} (inner : ∀ j ∈ items, Exact depth j) :
      Exact (depth + 1) (.array items)
  | object {depth : Nat} {entries : List (String × Json)} (sorted : Dict.Sorted entries)
      (inner : ∀ e ∈ entries, Exact depth e.2) : Exact (depth + 1) (.object entries)

/-! ## Written forms -/

theorem toList_write_array (items : List Json) :
    (Json.array items).write.toList = '[' :: ((writeItems items).toList ++ [']']) := by
  simp [write]

theorem toList_write_object (entries : List (String × Json)) :
    (Json.object entries).write.toList = '\x7b' :: ((writeEntries entries).toList ++ ['\x7d']) := by
  simp [write]

/-- The parts of an array, with what stands behind each of them. -/
theorem toList_writeItems_cons (item : Json) (items : List Json) (rest : List Char) :
    (writeItems (item :: items)).toList ++ ']' :: rest =
      item.write.toList ++
        if items = [] then ']' :: rest else ',' :: ((writeItems items).toList ++ ']' :: rest) := by
  cases items <;> simp [writeItems]

theorem toList_writeEntries_cons (key : String) (item : Json) (entries : List (String × Json))
    (rest : List Char) :
    (writeEntries ((key, item) :: entries)).toList ++ '\x7d' :: rest =
      (quote key).toList ++ ':' :: (item.write.toList ++
        if entries = [] then '\x7d' :: rest
        else ',' :: ((writeEntries entries).toList ++ '\x7d' :: rest)) := by
  cases entries <;> simp [writeEntries]

/-- The fuel that a list is read with is enough for its items. -/
theorem length_le_writeItems (items : List Json) (rest : List Char) :
    items.length ≤ ((writeItems items).toList ++ rest).length + 1 := by
  induction items with
  | nil => exact Nat.zero_le _
  | cons item items ih =>
    cases items with
    | nil => exact Nat.le_add_left ..
    | cons next items =>
      simp only [writeItems, String.toList_append, List.length_append, List.length_cons] at ih ⊢
      have hcomma : ",".toList.length = 1 := rfl
      omega

theorem length_le_writeEntries (entries : List (String × Json)) (rest : List Char) :
    entries.length ≤ ((writeEntries entries).toList ++ rest).length + 1 := by
  induction entries with
  | nil => exact Nat.zero_le _
  | cons e entries ih =>
    cases entries with
    | nil => exact Nat.le_add_left ..
    | cons next entries =>
      simp only [writeEntries, String.toList_append, List.length_append, List.length_cons] at ih ⊢
      have hcomma : ",".toList.length = 1 := rfl
      omega

/-- Neither a digit nor a minus sign is any other character. -/
theorem ne_of_startsNumber {c : Char} (hc : isDigit c = true ∨ c = '-') {x : Char}
    (hx : isDigit x = false ∧ x ≠ '-') : c ≠ x := by
  rintro rfl
  simp_all

theorem isSpace_of_startsNumber {c : Char} (hc : isDigit c = true ∨ c = '-') :
    isSpace c = false := by
  have hne {x : Char} (hx : isDigit x = false ∧ x ≠ '-') : c ≠ x := ne_of_startsNumber hc hx
  simp [isSpace, hne (x := ' ') (by decide), hne (x := '\n') (by decide),
    hne (x := '\t') (by decide), hne (x := '\r') (by decide)]

/-- A document starts neither with a blank nor with the end of an array. -/
theorem Exact.write_cons (h : Exact depth j) :
    ∃ c l, j.write.toList = c :: l ∧ isSpace c = false ∧ c ≠ ']' := by
  cases h with
  | null => exact ⟨'n', _, rfl, rfl, by decide⟩
  | bool b => cases b <;> exact ⟨_, _, rfl, rfl, by decide⟩
  | int n =>
    obtain ⟨c, l, hchars, hc⟩ := exists_toString_cons n
    exact ⟨c, l, hchars, isSpace_of_startsNumber hc, ne_of_startsNumber hc (by decide)⟩
  | text s =>
    refine ⟨'"', s.toList.flatMap escape ++ ['"'], ?_, rfl, by decide⟩
    rw [write, ← toList_quote_append, List.append_nil]
  | array inner => exact ⟨'[', _, toList_write_array _, rfl, by decide⟩
  | object sorted inner => exact ⟨'\x7b', _, toList_write_object _, rfl, by decide⟩

/-! ## Containers -/

/-- The reader `value` reads the document back, in front of anything that may stand behind it. -/
def ReadsBack (value : List Char → Option (Json × List Char)) (j : Json) : Prop :=
  ∀ rest, Delimits rest → value (j.write.toList ++ rest) = some (j, rest)

theorem skipSpace_cons {c : Char} (h : isSpace c = false) (l : List Char) :
    skipSpace (c :: l) = c :: l := by
  simp [skipSpace, h]

/-- The items of a written list are read back, after those found before. -/
theorem items?_writeItems {value : List Char → Option (Json × List Char)} {fuel : Nat}
    (h : ∀ j ∈ items, ReadsBack value j) (hne : items ≠ []) (hfuel : items.length ≤ fuel)
    (found : List Json) (rest : List Char) :
    items? value fuel found ((writeItems items).toList ++ ']' :: rest) =
      some (found.reverse ++ items, rest) := by
  induction items generalizing fuel found with
  | nil => exact absurd rfl hne
  | cons item items ih =>
    obtain ⟨fuel, rfl⟩ := Nat.exists_eq_add_of_le' (Nat.le_trans (Nat.le_add_left 1 _) hfuel)
    rw [List.forall_mem_cons] at h
    rw [toList_writeItems_cons, items?]
    by_cases hlast : items = []
    · subst hlast
      rw [if_pos rfl, h.1 _ (delimits_bracket rest)]
      simp [skipSpace_cons (c := ']') rfl]
    · rw [if_neg hlast, h.1 _ (delimits_comma _)]
      simp only [Option.bind_eq_bind, Option.bind_some, skipSpace_cons (c := ',') rfl]
      rw [ih h.2 hlast (Nat.le_of_succ_le_succ hfuel)]
      simp

/-- The entries of a written object are read back, as long as their keys come in order. -/
theorem entries?_writeEntries {value : List Char → Option (Json × List Char)} {fuel : Nat}
    (h : ∀ e ∈ entries, ReadsBack value e.2) (hne : entries ≠ []) (hfuel : entries.length ≤ fuel)
    (found : Dict Json) (hsorted : Dict.Sorted (found ++ entries)) (rest : List Char) :
    entries? value fuel found ((writeEntries entries).toList ++ '\x7d' :: rest) =
      some (found ++ entries, rest) := by
  induction entries generalizing fuel found with
  | nil => exact absurd rfl hne
  | cons e entries ih =>
    obtain ⟨key, item⟩ := e
    obtain ⟨fuel, rfl⟩ := Nat.exists_eq_add_of_le' (Nat.le_trans (Nat.le_add_left 1 _) hfuel)
    rw [List.forall_mem_cons] at h
    -- the keys come in order, so every entry is put behind those found before
    have hinsert : Dict.insert key item found = found ++ [(key, item)] := by
      refine Dict.insert_of_forall_lt (fun e he => ?_) item
      exact (List.pairwise_append.mp hsorted).2.2 e he (key, item) (List.mem_cons_self ..)
    have hquote (l : List Char) :
        skipSpace ((quote key).toList ++ l) = (quote key).toList ++ l := by
      rw [toList_quote_append, skipSpace_cons rfl]
    rw [toList_writeEntries_cons, entries?, hquote, text?_quote]
    simp only [Option.bind_eq_bind, Option.bind_some, skipSpace_cons (c := ':') rfl]
    by_cases hlast : entries = []
    · subst hlast
      rw [if_pos rfl, h.1 _ (delimits_brace rest)]
      simp [skipSpace_cons (c := '\x7d') rfl, hinsert]
    · rw [if_neg hlast, h.1 _ (delimits_comma _)]
      simp only [Option.bind_some, skipSpace_cons (c := ',') rfl, hinsert]
      rw [ih h.2 hlast (Nat.le_of_succ_le_succ hfuel) _ (by simpa using hsorted)]
      simp

/-! ## Documents -/

/-- What starts with a digit or a sign is read as a number. -/
theorem value?_of_digit {c : Char} (hc : isDigit c = true ∨ c = '-') (l : List Char) :
    value? depth (c :: l) = number? (c :: l) := by
  have hne {x : Char} (hx : isDigit x = false ∧ x ≠ '-') : c ≠ x := ne_of_startsNumber hc hx
  rw [value?, skipSpace_cons (isSpace_of_startsNumber hc)]
  split
  next heq => cases heq
  next c' l' heq =>
    obtain ⟨rfl, rfl⟩ := List.cons.inj heq
    split
    -- six characters start something else
    iterate 6 exact absurd rfl (hne (by decide))
    rfl

/-- What starts with a bracket is read as a list, one level deeper. -/
theorem value?_bracket {inner : List Char} {c : Char} {l : List Char} (hinner : inner = c :: l)
    (hspace : isSpace c = false) (hc : c ≠ ']') :
    value? (depth + 1) ('[' :: inner) =
      (items? (value? depth) (inner.length + 1) [] inner).map fun (xs, rest) =>
        (.array xs, rest) := by
  rw [value?, skipSpace_cons (c := '[') rfl]
  simp only [hinner, skipSpace_cons hspace]
  split
  next heq => cases heq
  next heq => exact absurd (List.cons.inj heq).1 hc
  next hdepth heq =>
    cases hdepth
    rfl

theorem value?_brace {inner l : List Char} (hinner : inner = '"' :: l) :
    value? (depth + 1) ('\x7b' :: inner) =
      (entries? (value? depth) (inner.length + 1) [] inner).map fun (xs, rest) =>
        (.object xs, rest) := by
  rw [value?, skipSpace_cons (c := '\x7b') rfl, hinner]
  rfl

/-- A document is read back wherever it stands. -/
theorem Exact.readsBack (h : Exact depth j) : ReadsBack (value? depth) j := by
  induction h with
  | null =>
    intro rest hrest
    rw [value?]
    rfl
  | bool b =>
    intro rest hrest
    rw [value?]
    cases b <;> rfl
  | int n =>
    intro rest hrest
    obtain ⟨c, l, hchars, hc⟩ := exists_toString_cons n
    have hnumber := number?_toString n hrest
    rw [write]
    rw [hchars, List.cons_append] at hnumber ⊢
    rw [value?_of_digit hc, hnumber]
  | text s =>
    intro rest hrest
    have htext := text?_quote s rest
    rw [write, value?]
    rw [toList_quote_append] at htext ⊢
    simp [skipSpace_cons (c := '"') rfl, htext]
  | @array depth items inner ih =>
    intro rest hrest
    rw [toList_write_array, List.cons_append, List.append_assoc, List.singleton_append]
    cases items with
    | nil =>
      rw [value?]
      rfl
    | cons item items =>
      obtain ⟨c, l, hchars, hspace, hc⟩ := (inner item (List.mem_cons_self ..)).write_cons
      have hinner := toList_writeItems_cons item items rest
      rw [hchars, List.cons_append] at hinner
      rw [value?_bracket hinner hspace hc, items?_writeItems ih (by simp) (length_le_writeItems ..)]
      rfl
  | @object depth entries sorted inner ih =>
    intro rest hrest
    rw [toList_write_object, List.cons_append, List.append_assoc, List.singleton_append]
    cases entries with
    | nil =>
      rw [value?]
      rfl
    | cons e entries =>
      have hinner := toList_writeEntries_cons e.1 e.2 entries rest
      rw [toList_quote_append] at hinner
      rw [value?_brace hinner,
        entries?_writeEntries ih (by simp) (length_le_writeEntries ..) [] (by simpa using sorted)]
      rfl

/-- What is written is read back as a whole. -/
theorem read?_write (h : Exact maxDepth j) : read? j.write = some j := by
  have hread := h.readsBack [] delimits_nil
  rw [List.append_nil] at hread
  rw [read?, hread]
  rfl

end Json

end RouteScript
