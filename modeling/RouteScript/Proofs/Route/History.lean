import Mathlib.Data.Finset.Card
import Mathlib.Data.List.Induction
import RouteScript.Route

/-!
# The history of a route table

A route table is only ever changed by adding a route, opening a middleware and closing the one that
was opened last. From the empty table, any sequence of changes gives a map with the order in which
its keys came: the key of a route is its method and path, and its value is what the last change
under that key put there. A request is answered from that map in two rounds.
-/

namespace RouteScript

/-- What tells a route from all others. -/
def Route.key (r : Route) : String × String := (r.method, r.path)

namespace RouteTable

/-- A change of a route table. -/
inductive Change where
  | add (method path : String) (handler : Value)
  | push (name : String)
  | pop

def Change.apply : Change → RouteTable → RouteTable
  | .add method path handler, t => t.add method path handler
  | .push name, t => t.push name
  | .pop, t => t.pop

/-- The key of a request or of an added route. -/
def keyOf (method path : String) : String × String := (Text.upper method, Route.normalize path)

/-- The key under which a change adds a route. -/
def Change.key? : Change → Option (String × String)
  | .add method path _ => some (keyOf method path)
  | .push _ | .pop => none

/-- Carry out changes one after another. -/
def after (t : RouteTable) (changes : List Change) : RouteTable :=
  changes.foldl (fun t c => c.apply t) t

def keys (t : RouteTable) : List (String × String) := t.routes.map Route.key

@[simp] theorem after_nil (t : RouteTable) : t.after [] = t := rfl

@[simp] theorem after_cons (t : RouteTable) (c : Change) (rest : List Change) :
    t.after (c :: rest) = (c.apply t).after rest := rfl

/-- Changes may be made in two legs. -/
@[simp] theorem after_append (t : RouteTable) (first second : List Change) :
    t.after (first ++ second) = (t.after first).after second := by
  simp [after]

@[simp] theorem keys_push (name : String) (t : RouteTable) : (t.push name).keys = t.keys := rfl

@[simp] theorem keys_pop (t : RouteTable) : t.pop.keys = t.keys := rfl

section Place

variable {r x : Route} {l : List Route}

theorem place_cons_of_key_eq {y : Route} (h : y.key = r.key) : place r (y :: l) = r :: l := by
  simp only [Route.key, Prod.mk.injEq] at h
  simp [place, h]

theorem place_cons_of_key_ne {y : Route} (h : y.key ≠ r.key) :
    place r (y :: l) = y :: place r l := by
  simp only [Route.key, ne_eq, Prod.mk.injEq] at h
  simp [place, h]

/-- A known key stays where it is, and a new one comes behind all others. -/
theorem map_key_place (r : Route) (l : List Route) :
    (place r l).map Route.key =
      if r.key ∈ l.map Route.key then l.map Route.key else l.map Route.key ++ [r.key] := by
  induction l with
  | nil => simp [place]
  | cons y l ih =>
    by_cases h : y.key = r.key
    · simp [place_cons_of_key_eq h, h]
    · rw [place_cons_of_key_ne h, List.map_cons, ih]
      grind

/-- A placed route takes the place of the one with its key, and the others stay. -/
theorem mem_place (distinct : (l.map Route.key).Nodup) :
    x ∈ place r l ↔ x = r ∨ x ∈ l ∧ x.key ≠ r.key := by
  induction l with
  | nil => simp [place]
  | cons y l ih =>
    rw [List.map_cons, List.nodup_cons] at distinct
    by_cases h : y.key = r.key
    · -- No other route has the key of the one that is replaced.
      have others : ∀ z ∈ l, z.key ≠ r.key := by
        intro z hz heq
        exact distinct.1 (h ▸ heq ▸ List.mem_map_of_mem hz)
      rw [place_cons_of_key_eq h]
      grind
    · rw [place_cons_of_key_ne h, List.mem_cons, ih distinct.2]
      grind

end Place

/-- A new key goes to the end; an old one keeps its place. -/
theorem keys_add (method path : String) (handler : Value) (t : RouteTable) :
    (t.add method path handler).keys =
      if keyOf method path ∈ t.keys then t.keys else t.keys ++ [keyOf method path] :=
  map_key_place _ _

/-- No change makes two routes with one key. -/
theorem nodup_keys_apply {t : RouteTable} (c : Change) (h : t.keys.Nodup) :
    (c.apply t).keys.Nodup := by
  cases c with
  | add method path handler =>
    rw [Change.apply, keys_add]
    split
    · exact h
    · next new => simpa using List.Nodup.concat new h
  | push name => exact h
  | pop => exact h

/-- No two routes have the same key, whatever the changes. -/
theorem nodup_keys_after (changes : List Change) {t : RouteTable} (h : t.keys.Nodup) :
    (t.after changes).keys.Nodup := by
  induction changes generalizing t with
  | nil => exact h
  | cons c rest ih => exact ih (nodup_keys_apply c h)

/-- So no table has two. -/
theorem nodup_keys (changes : List Change) : (after {} changes).keys.Nodup :=
  nodup_keys_after changes List.nodup_nil

theorem eraseDups_concat (l : List (String × String)) (k : String × String) :
    (l ++ [k]).eraseDups = if k ∈ l then l.eraseDups else l.eraseDups ++ [k] := by
  rw [List.eraseDups_append]
  by_cases h : k ∈ l <;> simp [List.removeAll, h, List.eraseDups_cons]

/-- The keys stand in the order in which they were added first. -/
theorem keys_after (changes : List Change) :
    (after {} changes).keys = (changes.filterMap Change.key?).eraseDups := by
  induction changes using List.reverseRecOn with
  | nil => rfl
  | append_singleton changes c ih =>
    rw [after_append, List.filterMap_append]
    cases c with
    | add method path handler =>
      have step := keys_add method path handler (after {} changes)
      simp only [ih, List.mem_eraseDups] at step
      exact step.trans (eraseDups_concat _ _).symm
    | push name => simpa [Change.apply, List.filterMap_cons, Change.key?] using ih
    | pop => simpa [Change.apply, List.filterMap_cons, Change.key?] using ih

/-- Later changes add keys at the end only. -/
theorem keys_prefix_after (first second : List Change) :
    (after {} first).keys <+: (after {} (first ++ second)).keys := by
  rw [keys_after, keys_after, List.filterMap_append, List.eraseDups_append]
  exact List.prefix_append _ _

/-- A table has as many routes as different keys were added. -/
theorem size_after (changes : List Change) :
    (after {} changes).size = (changes.filterMap Change.key?).toFinset.card := by
  have distinct := nodup_keys changes
  have same : (after {} changes).keys.toFinset = (changes.filterMap Change.key?).toFinset := by
    ext k
    simp [keys_after]
  calc (after {} changes).size
      = (after {} changes).keys.length := by simp [size, keys]
    _ = (after {} changes).keys.toFinset.card := (List.toFinset_card_of_nodup distinct).symm
    _ = _ := by rw [same]

/-- The route is what the last change under its key put into the table: it has the handler of that
change and the middleware that was open then. -/
def AddedLast (changes : List Change) (r : Route) : Prop :=
  ∃ before method path handler later, changes = before ++ .add method path handler :: later ∧
    r = ⟨Text.upper method, Route.normalize path, handler, (after {} before).middleware⟩ ∧
    ∀ c ∈ later, c.key? ≠ some r.key

/-- A further change adds a route, and hides the earlier one with its key. -/
theorem addedLast_concat {changes : List Change} {c : Change} {r : Route} :
    AddedLast (changes ++ [c]) r ↔
      (∃ method path handler, c = .add method path handler ∧
        r = ⟨Text.upper method, Route.normalize path, handler, (after {} changes).middleware⟩) ∨
      AddedLast changes r ∧ c.key? ≠ some r.key := by
  constructor
  · rintro ⟨before, method, path, handler, later, split, here, unchanged⟩
    rcases List.eq_nil_or_concat later with rfl | ⟨later, c', rfl⟩
    · obtain ⟨rfl, last⟩ := List.append_inj' split rfl
      exact .inl ⟨method, path, handler, by simpa using last, here⟩
    · rw [List.concat_eq_append, ← List.cons_append, ← List.append_assoc] at split
      obtain ⟨rfl, last⟩ := List.append_inj' split rfl
      obtain rfl : c = c' := by simpa using last
      refine .inr ⟨⟨before, method, path, handler, later, rfl, here, ?_⟩, ?_⟩
      · intro d hd
        exact unchanged d (by simp [hd])
      · exact unchanged c (by simp)
  · rintro (⟨method, path, handler, rfl, here⟩ |
      ⟨⟨before, method, path, handler, later, rfl, here, unchanged⟩, other⟩)
    · exact ⟨changes, method, path, handler, [], rfl, here, by simp⟩
    · refine ⟨before, method, path, handler, later ++ [c], by simp, here, ?_⟩
      intro d hd
      rcases List.mem_append.1 hd with hd | hd
      · exact unchanged d hd
      · rw [List.mem_singleton.1 hd]
        exact other

/-- The routes of a table are those added last for their keys. -/
theorem mem_routes_after (changes : List Change) (r : Route) :
    r ∈ (after {} changes).routes ↔ AddedLast changes r := by
  induction changes using List.reverseRecOn with
  | nil => simp [AddedLast]
  | append_singleton changes c ih =>
    have distinct := nodup_keys changes
    rw [addedLast_concat, ← ih, after_append]
    cases c with
    | add method path handler =>
      have placed := mem_place (r := ⟨Text.upper method, Route.normalize path, handler,
        (after {} changes).middleware⟩) (x := r) distinct
      simpa [Change.apply, add, Change.key?, keyOf, Route.key, eq_comm] using placed
    | push name => simp [Change.apply, push, Change.key?]
    | pop => simp [Change.apply, pop, Change.key?]

section Answers

variable {t : RouteTable} {method path : String}

/-- What answers a request: the route under its very key, or else the first of the routes with its
method that has a fitting pattern, with the parameters of the path. -/
inductive Answers (t : RouteTable) (method path : String) : Option (Route × List String) → Prop
  | exact {r : Route} (mem : r ∈ t.routes) (key : r.key = keyOf method path) :
    Answers t method path (some (r, []))
  | pattern {r : Route} {params : List String} (before later : List Route)
    (absent : keyOf method path ∉ t.keys) (split : t.routes = before ++ r :: later)
    (verb : r.method = Text.upper method)
    (fits : Route.match? r.path (Route.normalize path) = some params)
    (first : ∀ x ∈ before, x.method = Text.upper method →
      Route.match? x.path (Route.normalize path) = none) :
    Answers t method path (some (r, params))
  | nothing (absent : keyOf method path ∉ t.keys)
    (unfit : ∀ r ∈ t.routes, r.method = Text.upper method →
      Route.match? r.path (Route.normalize path) = none) :
    Answers t method path none

theorem findSome?_filter_method (l : List Route) (f : Route → Option (Route × List String)) :
    (l.filter (·.method == Text.upper method)).findSome? f =
      l.findSome? fun r => if r.method = Text.upper method then f r else none := by
  induction l with
  | nil => rfl
  | cons r l ih =>
    by_cases h : r.method = Text.upper method <;> simp [h, List.findSome?_cons, ih]

/-- Without a route under the key of the request, the patterns are tried in order. -/
theorem find?_of_absent (absent : keyOf method path ∉ t.keys) :
    t.find? method path = t.routes.findSome? fun r =>
      if r.method = Text.upper method then
        (Route.match? r.path (Route.normalize path)).map (r, ·)
      else none := by
  have other : (t.routes.filter (·.method == Text.upper method)).find?
      (·.path == Route.normalize path) = none := by
    simp only [List.find?_eq_none, List.mem_filter, beq_iff_eq]
    rintro r ⟨mem, verb⟩ same
    exact absent (List.mem_map.2 ⟨r, mem, Prod.ext verb same⟩)
  rw [find?, other, ← findSome?_filter_method]

/-- A route is found by its own key, without parameters. -/
theorem find?_of_mem {r : Route} (distinct : t.keys.Nodup) (mem : r ∈ t.routes)
    (key : r.key = keyOf method path) : t.find? method path = some (r, []) := by
  have verb : r.method = Text.upper method := congrArg Prod.fst key
  have same : r.path = Route.normalize path := congrArg Prod.snd key
  cases found : (t.routes.filter (·.method == Text.upper method)).find?
      (·.path == Route.normalize path) with
  | none =>
    have := List.find?_eq_none.1 found r (by simp [mem, verb])
    simp [same] at this
  | some r' =>
    have mem' := List.mem_of_find?_eq_some found
    have same' := List.find?_some found
    simp only [List.mem_filter, beq_iff_eq] at mem' same'
    have key' : r'.key = r.key := Prod.ext (mem'.2.trans verb.symm) (same'.trans same.symm)
    rw [find?, found, List.inj_on_of_nodup_map distinct mem'.1 mem key']

/-- The search gives the answer to a request and nothing else. -/
theorem find?_eq_iff (distinct : t.keys.Nodup) {answer : Option (Route × List String)} :
    t.find? method path = answer ↔ Answers t method path answer := by
  constructor
  · rintro rfl
    by_cases mem : keyOf method path ∈ t.keys
    · obtain ⟨r, mem, key⟩ := List.mem_map.1 mem
      rw [find?_of_mem distinct mem key]
      exact .exact mem key
    · rw [find?_of_absent mem]
      cases found : t.routes.findSome? _ with
      | some answer =>
        obtain ⟨before, r, later, split, answered, first⟩ := List.findSome?_eq_some_iff.1 found
        obtain ⟨verb, taken⟩ := Option.ite_none_right_eq_some.1 answered
        obtain ⟨params, fits, rfl⟩ := Option.map_eq_some_iff.1 taken
        refine .pattern before later mem split verb fits ?_
        intro x hx verb
        simpa [verb] using first x hx
      | none =>
        refine .nothing mem ?_
        intro r hr verb
        simpa [verb] using List.findSome?_eq_none_iff.1 found r hr
  · intro answers
    cases answers with
    | exact mem key => exact find?_of_mem distinct mem key
    | pattern before later absent split verb fits first =>
      rw [find?_of_absent absent, List.findSome?_eq_some_iff]
      refine ⟨before, _, later, split, by simp [verb, fits], ?_⟩
      intro x hx
      by_cases h : x.method = Text.upper method
      · simp [h, first x hx h]
      · simp [h]
    | nothing absent unfit =>
      rw [find?_of_absent absent, List.findSome?_eq_none_iff]
      intro r hr
      by_cases h : r.method = Text.upper method
      · simp [h, unfit r hr h]
      · simp [h]

end Answers

/-- After any changes of the empty table, its routes form a map with the order of insertion. No two
routes have the same key, there are as many routes as keys were added, a key stands where it was
added first, for good, and its route is the one that was added last. A request gets the route under
its key, or else the first route with its method and a fitting pattern. -/
theorem routes_insertion_ordered (changes : List Change) :
    let t := after {} changes
    let added := changes.filterMap Change.key?
    t.keys.Nodup ∧ t.size = added.toFinset.card ∧ t.keys = added.eraseDups ∧
    (∀ later, t.keys <+: (after {} (changes ++ later)).keys) ∧
    (∀ r, r ∈ t.routes ↔ AddedLast changes r) ∧
    ∀ method path answer, t.find? method path = answer ↔ Answers t method path answer := by
  have distinct := nodup_keys changes
  refine ⟨distinct, size_after changes, keys_after changes, keys_prefix_after changes,
    mem_routes_after changes, ?_⟩
  intro method path answer
  exact find?_eq_iff distinct

end RouteTable

end RouteScript
