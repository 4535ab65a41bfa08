import RouteScript.Proofs.Syntax.ExpressionReads

/-!
# Climbing

An expression is read as an operand that grows by one operator after another. `Climbs` follows this:
the lexemes of an expression start with an operand, and each step behind it binds more tightly than
the level that the expression was begun for.
-/

namespace RouteScript.Grammar

open Parse

variable {g : Grammar} {level : Level} {d : Nat} {ls l₁ l₂ rest : List Lexeme} {e left : Expr}

def grow (g : Grammar) (level : Level) (left : Expr) : Parse (Round Expr Expr) := do
  if level.rank < (← peek).level.rank then return .more (← g.extend left) else return .done left

/-- Climbing reads an operand and goes on growing it. -/
theorem climb_eq (g : Grammar) (level : Level) :
    g.climb level = g.operand >>= fun first => loop first (g.grow level) := rfl

/-- An operator of a higher level is taken in. -/
theorem reads_grow_more (hlevel : level.rank < (front (ls ++ rest)).level.rank)
    (h : Reads (g.extend left) d ls e rest) : Reads (g.grow level left) d ls (.more e) rest := by
  refine reads_peek.bind_nil ?_
  rw [if_pos hlevel]
  exact h.bind_last .pure

/-- An operator of no higher level is left to the caller. -/
theorem reads_grow_done (hlevel : (front rest).level.rank ≤ level.rank) :
    Reads (g.grow level left) d [] (.done left) rest := by
  refine reads_peek.bind_nil ?_
  rw [if_neg (by simpa using hlevel)]
  exact .pure

/-- While the grammar reads an expression begun for `level`, it comes to have read `ls` as `e`. -/
inductive Climbs (g : Grammar) (level : Level) (d : Nat) :
    List Lexeme → Expr → List Lexeme → Prop
  | operand {ls rest : List Lexeme} {e : Expr} (h : Reads g.operand d ls e rest) :
    Climbs g level d ls e rest
  | extend {l₁ l₂ rest : List Lexeme} {left e : Expr}
    (hleft : Climbs g level d l₁ left (l₂ ++ rest))
    (hlevel : level.rank < (front (l₂ ++ rest)).level.rank) (hne : l₂ ≠ [])
    (h : Reads (g.extend left) d l₂ e rest) : Climbs g level d (l₁ ++ l₂) e rest

/-- What has been climbed so far goes on with any end of the loop. -/
theorem Climbs.reads_loop {more : List Lexeme} {result : Expr}
    (h : Climbs g level d ls e (more ++ rest))
    (hmore : Iterates (g.grow level) d e more result rest) :
    Reads (g.climb level) d (ls ++ more) result rest := by
  generalize hrest : more ++ rest = rest' at h
  induction h generalizing more with
  | operand h =>
    subst hrest
    rw [climb_eq]
    exact h.bind hmore.reads
  | extend hleft hlevel hne h ih =>
    subst hrest
    rw [List.append_assoc]
    refine ih ?_ (by rw [List.append_assoc])
    exact Iterates.more (reads_grow_more hlevel h) hne hmore

/-- What climbs is read, up to an operator of no higher level. -/
theorem Climbs.reads (h : Climbs g level d ls e rest)
    (hlevel : (front rest).level.rank ≤ level.rank) : Reads (g.climb level) d ls e rest := by
  have hend : Reads (g.climb level) d (ls ++ []) e rest :=
    h.reads_loop (.done (reads_grow_done hlevel))
  rwa [List.append_nil] at hend

/-- An expression that is not nested too deep. -/
theorem Climbs.reads_expressionOf (hd : d < maxDepth) (h : Climbs g level (d + 1) ls e rest)
    (hlevel : (front rest).level.rank ≤ level.rank) : Reads (g.expressionOf level) d ls e rest := by
  intro s hs
  have hclimb := h.reads hlevel s hs
  simp only [expressionOf, bind_apply, depth, Nat.not_le.mpr hd, if_false]
  exact hclimb

end RouteScript.Grammar
