import RouteScript.Eval.Builtin
import RouteScript.Proofs.Json.RoundTrip

/-!
# Plain data

Plain data is nil, booleans, integers and texts, and arrays and maps of plain data. It holds no
floats and no handles, so it means the same in every store. As long as it is not nested too deeply,
plain data is decoded from its document as it was, with every part of the same kind.
-/

namespace RouteScript

namespace Value

variable {v : Value}

/-- Values without floats and handles. The entries of a map are in the order of its keys. -/
inductive Plain : Value → Prop where
  | nil : Plain .nil
  | bool (b : Bool) : Plain (.bool b)
  | int (n : Int64) : Plain (.int n)
  | text (s : String) : Plain (.text s)
  | array {items : List Value} (inner : ∀ v ∈ items, Plain v) : Plain (.array items)
  | map {entries : List (String × Value)} (sorted : Dict.Sorted entries)
      (inner : ∀ e ∈ entries, Plain e.2) : Plain (.map entries)

mutual

/-- How many arrays and maps are inside each other. -/
def depth : Value → Nat
  | .array items => itemsDepth items + 1
  | .map entries => entriesDepth entries + 1
  | _ => 0

/-- How many arrays and maps are inside each other in an element of an array. -/
def itemsDepth : List Value → Nat
  | [] => 0
  | v :: rest => max v.depth (itemsDepth rest)

/-- How many arrays and maps are inside each other in an entry of a map. -/
def entriesDepth : List (String × Value) → Nat
  | [] => 0
  | (_, v) :: rest => max v.depth (entriesDepth rest)

end

theorem depth_le_of_mem_items {items : List Value} (h : v ∈ items) :
    v.depth ≤ itemsDepth items := by
  induction items with
  | nil => cases h
  | cons w rest ih =>
    rw [itemsDepth]
    rcases List.mem_cons.mp h with rfl | hmem
    · exact Nat.le_max_left ..
    · exact Nat.le_trans (ih hmem) (Nat.le_max_right ..)

theorem depth_le_of_mem_entries {entries : List (String × Value)} {e : String × Value}
    (h : e ∈ entries) : e.2.depth ≤ entriesDepth entries := by
  induction entries with
  | nil => cases h
  | cons e' rest ih =>
    rw [entriesDepth]
    rcases List.mem_cons.mp h with rfl | hmem
    · exact Nat.le_max_left ..
    · exact Nat.le_trans (ih hmem) (Nat.le_max_right ..)

/-! ## Documents of plain data -/

variable {object : ObjectRef → Json}

theorem itemsToJson_eq_map (items : List Value) :
    itemsToJson object items = items.map (toJsonWith object) := by
  induction items with
  | nil => rfl
  | cons v rest ih => rw [itemsToJson, ih, List.map_cons]

theorem entriesToJson_eq_map (entries : List (String × Value)) :
    entriesToJson object entries = entries.map fun e => (e.1, e.2.toJsonWith object) := by
  induction entries with
  | nil => rfl
  | cons e rest ih => rw [entriesToJson, ih, List.map_cons]

theorem itemsOfJson_eq_map (items : List Json) : itemsOfJson items = items.map ofJson := by
  induction items with
  | nil => rfl
  | cons j rest ih => rw [itemsOfJson, ih, List.map_cons]

theorem entriesOfJson_eq_map (entries : List (String × Json)) :
    entriesOfJson entries = entries.map fun e => (e.1, ofJson e.2) := by
  induction entries with
  | nil => rfl
  | cons e rest ih => rw [entriesOfJson, ih, List.map_cons]

/-- The document of plain data stands for the same data. -/
theorem Plain.ofJson_toJsonWith (h : v.Plain) : ofJson (v.toJsonWith object) = v := by
  induction h with
  | nil | bool b | int n | text s => simp [toJsonWith, ofJson]
  | array inner ih =>
    rw [toJsonWith, ofJson, itemsToJson_eq_map, itemsOfJson_eq_map, List.map_map]
    exact congrArg _ ((List.map_congr_left (g := id) ih).trans (List.map_id _))
  | map sorted inner ih =>
    rw [toJsonWith, ofJson, entriesToJson_eq_map, entriesOfJson_eq_map, List.map_map]
    refine congrArg _ ((List.map_congr_left (g := id) fun e he => ?_).trans (List.map_id _))
    exact Prod.ext rfl (ih e he)

/-- The document of plain data is as deep as the data. -/
theorem Plain.exact_toJsonWith (h : v.Plain) {depth : Nat} (hdepth : v.depth ≤ depth) :
    Json.Exact depth (v.toJsonWith object) := by
  induction h generalizing depth with
  | nil => exact .null
  | bool b => exact .bool b
  | int n => exact .int n
  | text s => exact .text s
  | array inner ih =>
    rw [Value.depth] at hdepth
    obtain ⟨depth, rfl⟩ := Nat.exists_eq_add_of_le' (Nat.le_trans (Nat.le_add_left 1 _) hdepth)
    rw [toJsonWith, itemsToJson_eq_map]
    refine .array fun j hj => ?_
    obtain ⟨v, hv, rfl⟩ := List.mem_map.mp hj
    exact ih v hv (Nat.le_trans (depth_le_of_mem_items hv) (Nat.le_of_succ_le_succ hdepth))
  | map sorted inner ih =>
    rw [Value.depth] at hdepth
    obtain ⟨depth, rfl⟩ := Nat.exists_eq_add_of_le' (Nat.le_trans (Nat.le_add_left 1 _) hdepth)
    rw [toJsonWith, entriesToJson_eq_map]
    refine .object (List.pairwise_map.mpr sorted) fun e he => ?_
    obtain ⟨e, hmem, rfl⟩ := List.mem_map.mp he
    exact ih e hmem (Nat.le_trans (depth_le_of_mem_entries hmem) (Nat.le_of_succ_le_succ hdepth))

theorem itemObjects_eq_flatMap (items : List Value) :
    itemObjects items = items.flatMap objects := by
  induction items with
  | nil => rfl
  | cons v rest ih => rw [itemObjects, ih, List.flatMap_cons]

theorem entryObjects_eq_flatMap (entries : List (String × Value)) :
    entryObjects entries = entries.flatMap fun e => e.2.objects := by
  induction entries with
  | nil => rfl
  | cons e rest ih => rw [entryObjects, ih, List.flatMap_cons]

/-- Plain values lead to no object. -/
theorem Plain.objects_eq_nil (h : v.Plain) : v.objects = [] := by
  induction h with
  | nil | bool b | int n | text s => simp [objects]
  | array inner ih =>
    rw [objects, itemObjects_eq_flatMap]
    exact List.flatMap_eq_nil_iff.mpr ih
  | map sorted inner ih =>
    rw [objects, entryObjects_eq_flatMap]
    exact List.flatMap_eq_nil_iff.mpr ih

end Value

namespace Builtin

/-- The builtin writes the value, or gives up where it has no end. -/
theorem call_jsonEncode (v : Value) (t : Task) (s : Store) :
    call .jsonEncode [v] t s =
      if v.endsWithin s.fields (s.objects.size + 1) then
        Script.release (.ok (.text (s.toJson v).write)) t s
      else Script.starve t s := by
  change (if v.endsWithin s.fields (s.objects.size + 1) then
      (pure (.text (s.toJson v).write) : Script Value) else Script.starve) t s = _
  split <;> rfl

theorem call_jsonVerify (v : Value) (t : Task) (s : Store) :
    call .jsonVerify [v] t s = Script.release (.ok (.bool (verify v))) t s := rfl

/-- The builtin reads the text, and gives nil for one that is malformed. -/
theorem call_jsonDecode (text : String) (t : Task) (s : Store) :
    call .jsonDecode [.text text] t s =
      Script.release (.ok ((Json.read? text).elim .nil Value.ofJson)) t s := rfl

/-- Plain data that is nested less than 128 deep is encoded, in any state, as a text that is
verified and that is decoded, in any state, as the same data. None of this changes anything. -/
theorem json_round_trip {v : Value} (h : v.Plain) (hdepth : v.depth < 128) (t : Task) (s : Store) :
    ∃ text, call .jsonEncode [v] t s = Script.release (.ok (.text text)) t s ∧
      ∀ t' s', call .jsonVerify [.text text] t' s' = Script.release (.ok (.bool true)) t' s' ∧
        call .jsonDecode [.text text] t' s' = Script.release (.ok v) t' s' := by
  have hread : Json.read? (s.toJson v).write = some (s.toJson v) :=
    Json.read?_write (h.exact_toJsonWith (Nat.le_of_lt_succ hdepth))
  have hends : v.endsWithin s.fields (s.objects.size + 1) = true := by
    rw [Value.endsWithin, h.objects_eq_nil]
    rfl
  have hvalue : Value.ofJson (s.toJson v) = v := h.ofJson_toJsonWith
  refine ⟨(s.toJson v).write, ?_, fun t' s' => ⟨?_, ?_⟩⟩
  · rw [call_jsonEncode, if_pos hends]
  · rw [call_jsonVerify, verify, hread, Option.isSome_some]
  · rw [call_jsonDecode, hread, Option.elim_some, hvalue]

/-- A map with an empty key and one to be escaped, and with the least integer. -/
theorem json_round_trip_escapes :
    let v : Value := .map [("", .array [.int Int64.minValue, .map [], .nil]),
      ("\"\\\n", .text "\x00é😀")]
    v.Plain ∧ v.depth < 128 ∧
      ∃ text, call .jsonEncode [v] {} {} = Script.release (.ok (.text text)) {} {} ∧
        ∀ t s, call .jsonVerify [.text text] t s = Script.release (.ok (.bool true)) t s ∧
          call .jsonDecode [.text text] t s = Script.release (.ok v) t s := by
  intro v
  have hplain : v.Plain := by
    refine .map (List.pairwise_pair.mpr (by decide)) ?_
    simp only [List.forall_mem_cons]
    refine ⟨.array ?_, .text _, by simp⟩
    simp only [List.forall_mem_cons]
    exact ⟨.int _, .map .nil (by simp), .nil, by simp⟩
  have hdepth : v.depth < 128 := by decide
  exact ⟨hplain, hdepth, json_round_trip hplain hdepth {} {}⟩

end Builtin

end RouteScript
