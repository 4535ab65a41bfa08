import RouteScript.Proofs.Route.History
import RouteScript.Proofs.Route.Pattern

/-!
# Parameters of found routes

The search for a route hands out the values of its parameters. They are complete if the route was
found by its pattern. A request that spells out the very path of a route, braces included, is taken
for a request without parameters.
-/

namespace RouteScript

namespace Route

/-- The number of parameters in the path of a route. -/
def arity (r : Route) : Nat := (r.path.toList.splitOn '/').countP isParameter

/-- Without values every segment stays as it is. -/
theorem fill_nil (segments : List (List Char)) : fill segments [] = segments := by
  induction segments with
  | nil => rfl
  | cons segment rest ih => simp [fill, ih]

theorem substitute_nil (pattern : String) : substitute pattern [] = pattern := by
  rw [substitute, fill_nil, List.intercalate_splitOn, String.ofList_toList]

variable {pattern path : String} {values : List String}

/-- The pieces of a path that fits, and one value for each parameter. -/
theorem splitOn_of_match? (h : match? pattern path = some values) :
    values.length = (pattern.toList.splitOn '/').countP isParameter ∧
      path.toList.splitOn '/' = fill (pattern.toList.splitOn '/') values := by
  rw [match?, Text.splitList_singleton, Text.splitList_singleton, matchSegments?_eq_some_iff] at h
  exact ⟨h.1, h.2.2⟩

/-- The captured values put back into the pattern give the path. -/
theorem substitute_of_match? (h : match? pattern path = some values) :
    substitute pattern values = path := by
  rw [substitute, ← (splitOn_of_match? h).2, List.intercalate_splitOn, String.ofList_toList]

end Route

namespace RouteTable

variable {method path : String} {r : Route} {params : List String}

/-- After any changes of the empty table, a route that is found for a request is found either by
its pattern or by its very path. By its pattern it gets one value for each of its parameters, and
the values in their places give the path of the request. By its path it gets no value at all. So
the values are complete unless the path of the request is that of a route with parameters. -/
theorem found_values_complete_iff (changes : List Change)
    (found : (after {} changes).find? method path = some (r, params)) :
    (r.path ≠ Route.normalize path →
      params.length = r.arity ∧ Route.substitute r.path params = Route.normalize path) ∧
    (r.path = Route.normalize path → params = []) ∧
    (params.length = r.arity ∧ Route.substitute r.path params = Route.normalize path ↔
      (r.path = Route.normalize path → r.arity = 0)) := by
  have answers := (find?_eq_iff (nodup_keys changes)).mp found
  cases answers with
  | exact mem key =>
    have same : r.path = Route.normalize path := congrArg Prod.snd key
    refine ⟨fun other => absurd same other, fun _ => rfl, ?_⟩
    simp [Route.substitute_nil, same, eq_comm]
  | pattern before later absent split verb fits first =>
    have other : r.path ≠ Route.normalize path := by
      intro same
      exact absent (List.mem_map.mpr ⟨r, by simp [split], Prod.ext verb same⟩)
    have complete : params.length = r.arity ∧
        Route.substitute r.path params = Route.normalize path :=
      ⟨(Route.splitOn_of_match? fits).1, Route.substitute_of_match? fits⟩
    exact ⟨fun _ => complete, fun same => absurd same other,
      iff_of_true complete fun same => absurd same other⟩

/-- The pattern of a user's page captures every name but its own: a request for `{id}` finds the
route and captures nothing. -/
theorem found_values_complete_iff_braces :
    let changes : List Change := [.add "get" "users/\x7bid\x7d/" (.text "User@show")]
    let r : Route := ⟨"GET", "/users/\x7bid\x7d", .text "User@show", []⟩
    (after {} changes).find? "GET" "/users/7" = some (r, ["7"]) ∧
      (["7"].length = r.arity ∧ Route.substitute r.path ["7"] = Route.normalize "/users/7") ∧
      (after {} changes).find? "GET" "/users/\x7bid\x7d" = some (r, []) ∧
      ¬ (List.length ([] : List String) = r.arity ∧
        Route.substitute r.path [] = Route.normalize "/users/\x7bid\x7d") := by
  intro changes r
  have byPattern : (after {} changes).find? "GET" "/users/7" = some (r, ["7"]) := rfl
  have byPath : (after {} changes).find? "GET" "/users/\x7bid\x7d" = some (r, []) := rfl
  refine ⟨byPattern, (found_values_complete_iff changes byPattern).1 (by decide), byPath, ?_⟩
  rw [(found_values_complete_iff changes byPath).2.2]
  decide

end RouteTable

end RouteScript
