import RouteScript.Route

/-!
# Patterns

A path fits a pattern with exactly those values that give the path when they stand for the segments
in braces, in order. Values are never empty and never reach over a slash.
-/

namespace RouteScript

/-! ## Cutting at a character -/

namespace Text

theorem splitFrom_singleton (c : Char) (piece l : List Char) :
    splitFrom [c] 0 piece l = l.splitOnPPrepend (· == c) piece := by
  induction l generalizing piece with
  | nil => rfl
  | cons x rest ih =>
    by_cases h : x = c
    · simp [splitFrom, List.splitOnPPrepend, h, ih]
    · simp [splitFrom, List.splitOnPPrepend, h, Ne.symm h, ih]

/-- Splitting at a text of one character is splitting at that character. -/
theorem splitList_singleton (c : Char) (l : List Char) : splitList [c] l = l.splitOn c :=
  splitFrom_singleton c [] l

/-- The character is in none of the pieces, if it is not in the piece that is begun. -/
theorem not_mem_of_mem_splitOnPPrepend {c : Char} {l start piece : List Char} (hstart : c ∉ start)
    (h : piece ∈ l.splitOnPPrepend (· == c) start) : c ∉ piece := by
  induction l generalizing start with
  | nil => simp_all [List.splitOnPPrepend]
  | cons x rest ih => grind [List.splitOnPPrepend]

theorem not_mem_of_mem_splitOn {c : Char} {l piece : List Char} (h : piece ∈ l.splitOn c) :
    c ∉ piece :=
  not_mem_of_mem_splitOnPPrepend (by simp) h

end Text

/-! ## Segments -/

namespace Route

/-- The segments of a pattern with values in the place of the parameters, in order. -/
def fill : List (List Char) → List String → List (List Char)
  | [], _ => []
  | segment :: rest, values =>
    if isParameter segment then
      values.head?.elim segment String.toList :: fill rest values.tail
    else segment :: fill rest values

/-- A pattern with values in the place of its parameters. -/
def substitute (pattern : String) (values : List String) : String :=
  String.ofList (['/'].intercalate (fill (pattern.toList.splitOn '/') values))

variable {segments gots : List (List Char)} {values : List String}

theorem fill_ne_nil (h : segments ≠ []) (values : List String) : fill segments values ≠ [] := by
  cases segments with
  | nil => exact absurd rfl h
  | cons segment rest =>
    rw [fill]
    split <;> simp

/-- A filled in segment is one of the pattern or one of the values. -/
theorem mem_fill {piece : List Char} (h : piece ∈ fill segments values) :
    piece ∈ segments ∨ ∃ value ∈ values, piece = value.toList := by
  induction segments generalizing values with
  | nil => simp [fill] at h
  | cons segment rest ih => cases values <;> grind [fill]

/-- All values are filled in if there are as many as parameters. -/
theorem toList_mem_fill (hlength : values.length = segments.countP isParameter) {value : String}
    (h : value ∈ values) : value.toList ∈ fill segments values := by
  induction segments generalizing values with
  | nil => simp_all
  | cons segment rest ih => cases values <;> grind [fill]

/-- A parameter captures a segment that is not empty. -/
theorem matchSegments?_of_isParameter {segment got : List Char} (h : isParameter segment)
    {value : String} :
    matchSegments? (segment :: segments) (got :: gots) = some (value :: values) ↔
      got = value.toList ∧ value ≠ "" ∧ matchSegments? segments gots = some values := by
  by_cases hgot : got = value.toList
  · subst hgot
    simp [matchSegments?, h]
  · have hvalue : String.ofList got ≠ value := by
      rintro rfl
      simp at hgot
    simp [matchSegments?, h, hgot, hvalue]

/-- Segment by segment: a parameter takes the next value, and all other segments agree. -/
theorem matchSegments?_eq_some_iff :
    matchSegments? segments gots = some values ↔
      values.length = segments.countP isParameter ∧ (∀ value ∈ values, value ≠ "") ∧
        gots = fill segments values := by
  induction segments generalizing gots values with
  | nil => cases gots <;> cases values <;> simp [matchSegments?, fill]
  | cons segment rest ih =>
    cases gots with
    | nil => simp [matchSegments?, (fill_ne_nil (List.cons_ne_nil segment rest) values).symm]
    | cons got gots =>
      by_cases hparameter : isParameter segment
      · cases values with
        | nil => simp [matchSegments?, hparameter]
        | cons value others =>
          rw [matchSegments?_of_isParameter hparameter, ih]
          grind [fill]
      · by_cases hgot : segment = got
        · subst hgot
          simp [matchSegments?, fill, hparameter, ih]
        · simp [matchSegments?, fill, hparameter, hgot, Ne.symm hgot]

/-- A path fits a pattern with some values exactly if there is one value for each parameter, no value
is empty or has a slash in it, and the path is the pattern with the values in place of the
parameters. -/
theorem path_fits_iff_substituted (pattern path : String) (values : List String) :
    match? pattern path = some values ↔
      values.length = (pattern.toList.splitOn '/').countP isParameter ∧
      (∀ value ∈ values, value ≠ "" ∧ '/' ∉ value.toList) ∧
      path = substitute pattern values := by
  rw [match?, Text.splitList_singleton, Text.splitList_singleton, matchSegments?_eq_some_iff]
  constructor
  · rintro ⟨hlength, hvalues, hpath⟩
    refine ⟨hlength, fun value hvalue => ⟨hvalues value hvalue, ?_⟩, ?_⟩
    · have hmem := toList_mem_fill hlength hvalue
      rw [← hpath] at hmem
      exact Text.not_mem_of_mem_splitOn hmem
    · rw [substitute, ← hpath, List.intercalate_splitOn, String.ofList_toList]
  · rintro ⟨hlength, hvalues, rfl⟩
    refine ⟨hlength, fun value hvalue => (hvalues value hvalue).1, ?_⟩
    rw [substitute, String.toList_ofList, List.splitOn_intercalate]
    · intro piece hpiece
      obtain hsegment | ⟨value, hvalue, rfl⟩ := mem_fill hpiece
      · exact Text.not_mem_of_mem_splitOn hsegment
      · exact (hvalues value hvalue).2
    · exact fill_ne_nil (by simp) values

/-- Only whole segments are parameters, and an empty segment is a segment. -/
example : match? "/\x7ba\x7d//\x7bb/c\x7d" "/x//\x7bb/c\x7d" = some ["x"] := by decide

end Route

end RouteScript
