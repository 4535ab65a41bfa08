import Mathlib.Data.List.DropRight
import RouteScript.Proofs.Route.Captures

/-!
# Normalized paths

A normalized path starts with a slash and does not end with one, the root apart. Blanks are cut off
before the slashes at the end are, so a blank before those slashes comes to stand at the end. Such a
path is not normalized once more to itself, and neither a request nor a registration under it
reaches the route that is stored with it.
-/

namespace RouteScript

namespace Text

def endsBlank (s : String) : Bool := s.toList.getLast?.any isBlank

variable {p : Char → Bool} {l : List Char}

theorem dropEndWhile_eq_self_iff : dropEndWhile p l = l ↔ l.getLast?.any p = false := by
  change l.rdropWhile p = l ↔ _
  rw [List.rdropWhile_eq_self_iff]
  cases l using List.reverseRecOn <;> simp

/-- What is left does not end with what has been dropped. -/
theorem getLast?_dropEndWhile : (dropEndWhile p l).getLast?.any p = false :=
  dropEndWhile_eq_self_iff.mp (List.rdropWhile_idempotent p l)

theorem isPrefix_dropEndWhile : dropEndWhile p l <+: l := List.rdropWhile_prefix p l

end Text

namespace Route

open Text

variable {path : String} {rest : List Char}

/-! ## Normalizing once more -/

def trimmed (path : String) : List Char := dropEndWhile (· == '/') (trimList path.toList)

/-- A normalized path is the trimmed one with exactly one slash put in front if there is none. -/
theorem toList_normalize (path : String) :
    (normalize path).toList =
      '/' :: if (trimmed path).head? = some '/' then (trimmed path).tail else trimmed path := by
  rw [normalize, ← trimmed]
  split
  next hnil => simp [hnil]
  next hslash => simp [hslash]
  next hnil hslash =>
    cases hpath : trimmed path with
    | nil => exact absurd hpath hnil
    | cons c l =>
      have hc : c ≠ '/' := by
        rintro rfl
        exact hslash l hpath
      simp [hc]

/-- A normalized path has no slash at its end, apart from the one at its start. -/
theorem exists_toList_normalize (path : String) :
    ∃ rest, (normalize path).toList = '/' :: rest ∧ rest.getLast? ≠ some '/' := by
  have hlast : (trimmed path).getLast?.any (· == '/') = false := getLast?_dropEndWhile
  refine ⟨_, toList_normalize path, fun hslash => ?_⟩
  split at hslash
  next =>
    rw [List.getLast?_tail] at hslash
    split at hslash
    next => cases hslash
    next => simp [hslash] at hlast
  next => simp [hslash] at hlast

/-- Behind a slash at the start only the end is cut off. -/
theorem trimmed_of_slash (h : path.toList = '/' :: rest) :
    trimmed path = dropEndWhile (· == '/') (dropEndWhile isBlank path.toList) := by
  simp [trimmed, trimList, h, show isBlank '/' = false by decide]

/-- A path that starts with a slash is only trimmed. -/
theorem toList_normalize_of_slash (h : path.toList = '/' :: rest) :
    (normalize path).toList = if trimmed path = [] then ['/'] else trimmed path := by
  have hprefix : trimmed path <+: '/' :: rest := by
    rw [trimmed_of_slash h, ← h]
    exact isPrefix_dropEndWhile.trans isPrefix_dropEndWhile
  rw [toList_normalize]
  cases htrimmed : trimmed path with
  | nil => simp
  | cons c l =>
    rw [htrimmed] at hprefix
    obtain ⟨rfl, -⟩ := List.cons_prefix_cons.mp hprefix
    simp

/-- A path that starts with a slash loses nothing but its end. -/
theorem isPrefix_normalize (h : path.toList = '/' :: rest) :
    (normalize path).toList <+: path.toList := by
  rw [toList_normalize_of_slash h]
  split
  next => simp [h]
  next =>
    rw [trimmed_of_slash h]
    exact isPrefix_dropEndWhile.trans isPrefix_dropEndWhile

/-- A path of the right shape is normalized to itself just if it does not end with a blank. -/
theorem normalize_eq_self_iff (h : path.toList = '/' :: rest) (hrest : rest.getLast? ≠ some '/') :
    normalize path = path ↔ endsBlank path = false := by
  rw [← String.toList_inj, toList_normalize_of_slash h]
  constructor
  · intro hsame
    split at hsame
    next =>
      rw [endsBlank, ← hsame]
      decide
    next =>
      -- Nothing has been cut off, so no blank has.
      rw [trimmed_of_slash h] at hsame
      have hle : path.toList <+: dropEndWhile isBlank path.toList := by
        conv_lhs => rw [← hsame]
        exact isPrefix_dropEndWhile
      exact dropEndWhile_eq_self_iff.mp
        (isPrefix_dropEndWhile.eq_of_length_le hle.length_le)
  · intro hblank
    rw [trimmed_of_slash h, dropEndWhile_eq_self_iff.mpr hblank]
    cases rest with
    | nil => simp [h, dropEndWhile]
    | cons c l =>
      have hslash : dropEndWhile (· == '/') path.toList = path.toList := by
        rw [dropEndWhile_eq_self_iff, h]
        simpa [List.getLast?_cons] using hrest
      rw [hslash, if_neg (by simp [h])]

/-! ## A route under its own path -/

/-- A segment that ends with anything but a brace is no parameter. -/
theorem not_isParameter_append {a b : List Char} (hb : b ≠ []) (hlast : b.getLast? ≠ some '\x7d') :
    isParameter (a ++ b) = false := by
  cases hc : b.getLast? with
  | none => exact absurd (List.getLast?_eq_none_iff.mp hc) hb
  | some c => simp_all [isParameter, List.getLast?_append]

/-- A pattern that goes on behind the end of a path, and does not end with a brace, does not fit
the path. -/
theorem matchSegments?_append (a : List Char) {b : List Char} (hb : b ≠ [])
    (hlast : b.getLast? ≠ some '\x7d') :
    matchSegments? ((a ++ b).splitOn '/') (a.splitOn '/') = none := by
  by_cases hslash : '/' ∈ a
  · -- The first segments are the same; what is left of the path is shorter.
    obtain ⟨first, later, ha, hfirst⟩ := List.eq_append_cons_of_mem hslash
    have ih := matchSegments?_append later hb hlast
    rw [ha, List.append_assoc, List.cons_append,
      List.splitOn_append_cons_self_of_not_mem hfirst,
      List.splitOn_append_cons_self_of_not_mem hfirst]
    simp [matchSegments?, ih]
  · rw [List.splitOn_eq_singleton hslash]
    by_cases hmore : '/' ∈ b
    · -- The pattern has more segments than the path.
      obtain ⟨first, later, hsplit, hfirst⟩ := List.eq_append_cons_of_mem hmore
      have hfirst' : '/' ∉ a ++ first := by simp [hslash, hfirst]
      rw [hsplit, ← List.append_assoc, List.splitOn_append_cons_self_of_not_mem hfirst']
      obtain ⟨piece, pieces, hpieces⟩ := List.exists_cons_of_ne_nil (List.splitOn_ne_nil '/' later)
      simp [hpieces, matchSegments?]
    · rw [List.splitOn_eq_singleton (by simp [hslash, hmore])]
      simp [matchSegments?, not_isParameter_append hb hlast, hb]
termination_by a.length
decreasing_by simp [ha]; omega

/-- Where a path that starts with a slash ends with a blank, its own pattern does not fit what it is
normalized to. -/
theorem match?_normalize_of_endsBlank (h : path.toList = '/' :: rest)
    (hrest : rest.getLast? ≠ some '/') (hblank : endsBlank path = true) :
    match? path (normalize path) = none := by
  obtain ⟨b, hb⟩ := isPrefix_normalize h
  have hne : b ≠ [] := by
    rintro rfl
    rw [List.append_nil, String.toList_inj, normalize_eq_self_iff h hrest] at hb
    simp [hb] at hblank
  have hlast : b.getLast? = path.toList.getLast? := by
    rw [← hb, List.getLast?_append_of_ne_nil _ hne]
  rw [match?, Text.splitList_singleton, Text.splitList_singleton, ← hb]
  refine matchSegments?_append _ hne fun hbrace => ?_
  rw [endsBlank, ← hlast, hbrace] at hblank
  exact absurd hblank (by decide)

end Route

namespace RouteTable

open Text

/-- A route with a known key takes the place of the route with that key. -/
theorem place_of_mem {r x : Route} {l : List Route} (distinct : (l.map Route.key).Nodup)
    (mem : x ∈ l) (key : x.key = r.key) :
    ∃ before later, l = before ++ x :: later ∧ place r l = before ++ r :: later := by
  induction l with
  | nil => simp at mem
  | cons y l ih =>
    rw [List.map_cons, List.nodup_cons] at distinct
    obtain rfl | mem := List.mem_cons.mp mem
    · exact ⟨[], l, rfl, place_cons_of_key_eq key⟩
    · have other : y.key ≠ r.key := by
        intro same
        exact distinct.1 (same ▸ key ▸ List.mem_map_of_mem mem)
      obtain ⟨before, later, split, placed⟩ := ih distinct.2 mem
      refine ⟨y :: before, later, by rw [split]; rfl, ?_⟩
      rw [place_cons_of_key_ne other, placed]
      rfl

/-- All routes of a table have normalized paths. -/
theorem exists_path_of_mem {changes : List Change} {r : Route}
    (mem : r ∈ (after {} changes).routes) : ∃ path, r.path = Route.normalize path := by
  obtain ⟨_, _, path, _, _, _, rfl, _⟩ := (mem_routes_after changes r).mp mem
  exact ⟨path, rfl⟩

/-- A path is normalized once and for all just if what it is normalized to does not end with a
blank. After any changes of the empty table the same decides whether a route can be reached by the
path that is stored with it. If that path does not end with a blank, a request for it finds the
route, and a registration under it puts a new route in its place. If it does, no request for it
finds the route, and the route outlives every registration under it. -/
theorem normalized_for_good_iff (changes : List Change) :
    (∀ path, Route.normalize (Route.normalize path) = Route.normalize path ↔
      endsBlank (Route.normalize path) = false) ∧
    ∀ r ∈ (after {} changes).routes, ∀ method, upper method = r.method →
      (endsBlank r.path = false →
        (after {} changes).find? method r.path = some (r, []) ∧
        ∀ handler, ∃ before later, (after {} changes).routes = before ++ r :: later ∧
          ((after {} changes).add method r.path handler).routes = before ++
            { r with handler := handler, middleware := (after {} changes).middleware } :: later) ∧
      (endsBlank r.path = true →
        (∀ params, (after {} changes).find? method r.path ≠ some (r, params)) ∧
        ∀ handler, r ∈ ((after {} changes).add method r.path handler).routes) := by
  have distinct := nodup_keys changes
  constructor
  · intro path
    obtain ⟨rest, shape, last⟩ := Route.exists_toList_normalize path
    exact Route.normalize_eq_self_iff shape last
  intro r mem method verb
  obtain ⟨path, stored⟩ := exists_path_of_mem mem
  obtain ⟨rest, shape, last⟩ := Route.exists_toList_normalize path
  rw [← stored] at shape
  have settled := Route.normalize_eq_self_iff shape last
  constructor
  · intro steady
    have same := settled.mpr steady
    refine ⟨find?_of_mem distinct mem (Prod.ext verb.symm same.symm), fun handler => ?_⟩
    simp only [add, same, verb]
    exact place_of_mem distinct mem rfl
  · intro blank
    have other : Route.normalize r.path ≠ r.path := by
      intro same
      simp [settled.mp same] at blank
    refine ⟨fun params found => ?_, fun handler => ?_⟩
    · cases (find?_eq_iff distinct).mp found with
      | exact _ key => exact other (congrArg Prod.snd key).symm
      | pattern _ _ _ _ _ fits _ =>
        simp [Route.match?_normalize_of_endsBlank shape last blank] at fits
    · refine (mem_place distinct).mpr (.inr ⟨mem, fun key => ?_⟩)
      exact other (congrArg Prod.snd key).symm

/-- A blank before the last slash is left at the end: the stored path does not find its route, and
a registration under it adds another one. -/
theorem normalized_for_good_iff_blank :
    let t := after {} [.add "GET" "/a /" (.text "A@show")]
    let r : Route := ⟨"GET", "/a ", .text "A@show", []⟩
    r ∈ t.routes ∧ endsBlank r.path = true ∧ Route.normalize "/a " = "/a" ∧
      (∀ params, t.find? "GET" r.path ≠ some (r, params)) ∧
      r ∈ (t.add "GET" r.path (.text "A@edit")).routes := by
  intro t r
  have mem : r ∈ t.routes := List.mem_singleton.mpr rfl
  have blank : endsBlank r.path = true := by decide
  obtain ⟨lost, kept⟩ := ((normalized_for_good_iff _).2 r mem "GET" rfl).2 blank
  exact ⟨mem, blank, by decide, lost, kept _⟩

end RouteTable

end RouteScript
