import RouteScript.Proofs.Syntax.Fragment
import RouteScript.Proofs.Syntax.StatementReads

/-!
# Expressions at their places

An expression inside another construct stands at a place, which asks for a rank and is read at a
level. Here is what its written form starts with, what may stand behind it, and how written lists
split into the written forms of what they hold.
-/

namespace RouteScript

open Parse Grammar

variable {style : Style} {least : Nat} {level : Level}

def Expr.placed (style : Style) (least : Nat) (e : Expr) : List Lexeme :=
  style.enclose least e (e.lexemes style)

theorem Expr.enclose_eq {e : Expr} :
    style.enclose least e (e.lexemes style) = e.placed style least := by
  rw [Expr.placed]

theorem Expr.placed_of_wraps {e : Expr} (h : style.wraps least e = true) :
    e.placed style least = parens (e.lexemes style) := if_pos h

theorem Expr.placed_of_not_wraps {e : Expr} (h : ¬ style.wraps least e = true) :
    e.placed style least = e.lexemes style := if_neg h

/-- An expression stands without parentheses in the sparse style only, where its level is high
enough. -/
theorem Style.not_wraps_iff {e : Expr} :
    ¬ style.wraps least e = true ↔ style = .sparse ∧ least ≤ e.level.rank := by
  cases style <;> simp [Style.wraps]

/-! ## Ranks -/

def Expr.isGrown : Expr → Bool
  | .call .. | .member .. | .index .. | .assign .. | .choice .. | .binary .. | .step .. => true
  | _ => false

/-- The first operand of an expression that has grown, and the rank that its place asks for. -/
def Expr.first? : Expr → Option (Expr × Nat)
  | .call callee _ => some (callee, Level.call.rank)
  | .member object _ _ => some (object, Level.member.rank)
  | .index target _ => some (target, Level.member.rank)
  | .assign target _ => some (target, Level.member.rank)
  | .choice condition _ _ => some (condition, Level.nullCoalesce.rank)
  | .binary left op _ => some (left, op.level.rank)
  | .step operand _ => some (operand, Level.call.rank)
  | _ => none

/-- An expression that has grown, with another first operand. -/
def Expr.withFirst (e left : Expr) : Expr :=
  match e with
  | .call _ arguments => .call left arguments
  | .member _ property access => .member left property access
  | .index _ key => .index left key
  | .assign _ value => .assign left value
  | .choice _ consequence alternative => .choice left consequence alternative
  | .binary _ op right => .binary left op right
  | .step _ op => .step left op
  | e => e

/-- The tightest rank of what may stand behind an expression without becoming a part of it. -/
def Expr.edge : Expr → Nat
  | .assign .. | .choice .. => 0
  | .binary _ op _ => op.level.rank
  | .unary .. => Level.unary.rank
  | _ => Level.member.rank

theorem Level.rank_le_member (level : Level) : level.rank ≤ Level.member.rank := by
  cases level <;> decide

theorem Level.eq_lowest {level : Level} (h : level.rank ≤ 0) : level = .lowest := by
  cases level <;> first | rfl | simp [Level.rank] at h

/-- The levels of binary operators start at that of null coalescing and stay below the prefix
operators. -/
theorem BinaryOp.rank_bounds (op : BinaryOp) :
    Level.nullCoalesce.rank ≤ op.level.rank ∧ op.level.rank < Level.unary.rank := by
  cases op <;> decide

theorem BinaryOp.mark_level (op : BinaryOp) : op.mark.level = op.level := by
  cases op <;> rfl

theorem StepOp.mark_level (op : StepOp) : op.mark.level = .call := by
  cases op <;> rfl

theorem Access.mark_level (access : Access) : access.mark.level = .member := by
  cases access <;> rfl

theorem Expr.rank_pos (e : Expr) : 0 < e.level.rank := by
  cases e with
  | binary _ op _ => exact Nat.lt_of_lt_of_le (by decide) op.rank_bounds.1
  | _ => exact Nat.zero_lt_succ _

/-- What is at least as tight as the loosest operator between operands is as tight at its end. -/
theorem Expr.rank_le_edge {e : Expr} (h : Level.nullCoalesce.rank ≤ e.level.rank) :
    e.level.rank ≤ e.edge := by
  cases e with
  | assign | choice => simp [Expr.level, Level.rank] at h
  | binary | unary => exact Nat.le_refl _
  | _ => exact Level.rank_le_member _

section First

variable {e first : Expr}

theorem Expr.isGrown_of_first?_eq_none (h : e.first? = none) : e.isGrown = false := by
  cases e <;> first | rfl | cases h

theorem Expr.isGrown_of_first? (h : e.first? = some (first, least)) : e.isGrown = true := by
  cases e <;> first | rfl | cases h

/-- Putting the first operand back changes nothing. -/
theorem Expr.withFirst_first (h : e.first? = some (first, least)) : e.withFirst first = e := by
  cases e <;> cases h <;> rfl

theorem Expr.sizeOf_first (h : e.first? = some (first, least)) : sizeOf first < sizeOf e := by
  cases e <;> cases h <;> simp +arith

/-- What a first operand has to bind at is a level of an operator or a suffix. -/
theorem Expr.rank_first (h : e.first? = some (first, least)) :
    Level.nullCoalesce.rank ≤ least ∧ least ≤ Level.member.rank := by
  cases e with
  | binary left op right =>
    cases h
    exact ⟨op.rank_bounds.1, Level.rank_le_member _⟩
  | call | member | index | assign | choice | step => cases h; decide
  | _ => cases h

theorem Expr.height_first (h : e.first? = some (first, least)) : first.height < e.height := by
  cases e with
  | index _ key => cases key <;> cases h <;> simp only [Expr.height] <;> omega
  | choice _ consequence => cases consequence <;> cases h <;> simp only [Expr.height] <;> omega
  | call | member | assign | binary | step => cases h; simp only [Expr.height]; omega
  | _ => cases h

theorem Expr.passes_first {check : NodeCheck} (h : e.first? = some (first, least))
    (hp : e.passes check = true) : first.passes check = true := by
  cases e with
  | index _ key => cases key <;> cases h <;> simp_all [Expr.passes]
  | choice _ consequence => cases consequence <;> cases h <;> simp_all [Expr.passes]
  | call | member | assign | binary | step => cases h; simp_all [Expr.passes]
  | _ => cases h

end First

/-- The places of expressions inside other constructs: the levels they are read at and the ranks
they ask for. -/
inductive Slot : Level → Nat → Prop
  /-- Between marks that bind nothing. -/
  | alone : Slot .lowest 0
  /-- Behind an operator between two operands. -/
  | right (op : BinaryOp) : Slot op.level (op.level.rank + 1)
  /-- Behind an operator with one operand. -/
  | under : Slot .unary Level.unary.rank

/-- What is tight enough for its place is read as a whole there. -/
theorem Slot.fits (h : Slot level least) {e : Expr} (he : least ≤ e.level.rank) :
    (e.isGrown = true → level.rank < e.level.rank) ∧ level.rank ≤ e.edge := by
  cases h with
  | alone => exact ⟨fun _ => e.rank_pos, Nat.zero_le _⟩
  | right op =>
    have hedge := Expr.rank_le_edge (e := e) (by have := op.rank_bounds.1; omega)
    exact ⟨fun _ => he, by omega⟩
  | under =>
    have hedge := Expr.rank_le_edge (e := e) (Nat.le_trans (by decide) he)
    refine ⟨fun hgrown => ?_, by omega⟩
    cases e with
    | binary _ op _ => exact absurd he (Nat.not_le.mpr op.rank_bounds.2)
    | assign | choice => simp [Expr.level, Level.rank] at he
    | call | step | member | index => simp [Expr.level, Level.rank]
    | _ => simp [Expr.isGrown] at hgrown

/-! ## How written forms start -/

def Expr.isBraced : Expr → Bool
  | .map _ | .block _ | .function _ => true
  | _ => false

theorem Expr.isBraced_of_passes {e : Expr} (h : e.passes plainCheck = true) :
    e.isBraced = false := by
  cases e <;> simp_all [Expr.isBraced, Expr.passes, plainCheck]

theorem Expr.front_placed_of {e : Expr}
    (h : style = .sparse → (front (e.lexemes style)).startsOperand = true) (rest : List Lexeme) :
    (front (e.placed style least ++ rest)).startsOperand = true := by
  by_cases hw : style.wraps least e = true
  · rw [Expr.placed_of_wraps hw]
    rfl
  · have hs := h (Style.not_wraps_iff.mp hw).1
    rw [Expr.placed_of_not_wraps hw, front_append_of_ne_nil (ne_nil_of_startsOperand hs)]
    exact hs

/-- The written form of an expression starts with the written form of its first operand. -/
theorem Expr.front_lexemes (e : Expr) (h : e.passes style.check = true)
    (hb : e.isBraced = false) : (front (e.lexemes style)).startsOperand = true := by
  have hfirst (first : Expr) (hsub : sizeOf first < sizeOf e) (hp : first.passes style.check = true)
      (least : Nat) (rest : List Lexeme) :
      (front (first.placed style least ++ rest)).startsOperand = true :=
    first.front_placed_of (fun hs => first.front_lexemes hp
      (by subst hs; exact Expr.isBraced_of_passes hp)) rest
  cases e with
  | int | float | text | nil | name | this | create | array | isset | empty => rfl
  | bool b => cases b <;> rfl
  | unary op => cases op <;> rfl
  | map | block | function => exact absurd hb (by simp [Expr.isBraced])
  | call callee arguments =>
    simp only [Expr.passes, Bool.and_eq_true] at h
    exact hfirst callee (by simp +arith) h.1.2 _ _
  | member object =>
    simp only [Expr.passes, Bool.and_eq_true] at h
    exact hfirst object (by simp +arith) h.2 _ _
  | index target key =>
    cases key <;> simp only [Expr.passes, Bool.and_eq_true] at h
    · exact hfirst target (by simp +arith) h.2 _ _
    · exact hfirst target (by simp +arith) h.1.2 _ _
  | assign target value =>
    simp only [Expr.passes, Bool.and_eq_true] at h
    exact hfirst target (by simp +arith) h.1.2 _ _
  | choice condition consequence =>
    cases consequence <;> simp only [Expr.passes, Bool.and_eq_true] at h
    · exact hfirst condition (by simp +arith) h.1.2 _ _
    · exact hfirst condition (by simp +arith) h.1.1.2 _ _
  | binary left =>
    simp only [Expr.passes, Bool.and_eq_true] at h
    exact hfirst left (by simp +arith) h.1.2 _ _
  | step operand =>
    simp only [Expr.passes, Bool.and_eq_true] at h
    exact hfirst operand (by simp +arith) h.2 _ _
termination_by sizeOf e

/-- A placed expression starts an operand, in parentheses or not. -/
theorem Expr.front_placed {e : Expr} (h : e.passes style.check = true) (rest : List Lexeme) :
    (front (e.placed style least ++ rest)).startsOperand = true :=
  e.front_placed_of (fun hs => e.front_lexemes h
    (by subst hs; exact Expr.isBraced_of_passes h)) rest

theorem Expr.placed_ne_nil {e : Expr} (h : e.passes style.check = true) :
    e.placed style least ≠ [] := by
  have hstart : (front (e.placed style least ++ [])).startsOperand = true := Expr.front_placed h []
  rw [List.append_nil] at hstart
  exact ne_nil_of_startsOperand hstart

/-- Inside parentheses an expression may also start with a brace. -/
theorem Expr.front_lexemes_inside {e : Expr} (h : e.passes style.check = true) :
    e.lexemes style ≠ [] ∧ ∀ rest, (front (e.lexemes style ++ rest)).isNewline = false := by
  by_cases hb : e.isBraced = true
  · cases e with
    | map | block | function => exact ⟨List.cons_ne_nil _ _, fun _ => rfl⟩
    | _ => simp [Expr.isBraced] at hb
  · have hs := e.front_lexemes h (by simpa using hb)
    have hne := ne_nil_of_startsOperand hs
    refine ⟨hne, fun rest => ?_⟩
    rw [front_append_of_ne_nil hne]
    exact Lexeme.isNewline_of_startsOperand hs

theorem Lexeme.startsStatement_of_startsOperand {l : Lexeme} (h : l.startsOperand = true) :
    l.startsStatement = true := by
  cases l with
  | mark m => cases m <;> first | rfl | exact absurd h (by decide)
  | keyword k => cases k <;> first | rfl | exact absurd h (by decide)
  | integer | float | text => rfl
  | _ => simp [Lexeme.startsOperand] at h

/-- A statement starts with a lexeme that can start one. -/
theorem Stmt.front_lexemes {stmt : Stmt} (h : stmt.passes style.check = true) :
    (front (stmt.lexemes style)).startsStatement = true := by
  cases stmt with
  | expr value =>
    simp only [Stmt.passes, Bool.and_eq_true] at h
    have hs : (front (value.placed style 0 ++ [])).startsOperand = true := Expr.front_placed h.2 []
    rw [List.append_nil] at hs
    exact Lexeme.startsStatement_of_startsOperand hs
  | declare typeName name value =>
    have hcheck := Stmt.check_of_passes h
    cases style with
    | sparse => simp [Style.check, plainCheck] at hcheck
    | full =>
      simp only [Style.check, programCheck, Stmt.words, List.all_cons, Bool.and_eq_true] at hcheck
      have hword := Lexeme.ofWord_of_none (ofWord?_of_isPlainName hcheck.1.1)
      cases value <;> simp only [Stmt.lexemes, front_cons, hword] <;> rfl
  | classDef decl =>
    obtain ⟨name, parent, properties, methods⟩ := decl
    rfl
  | functionDef decl =>
    obtain ⟨name, params, body, isInit⟩ := decl
    cases isInit <;> rfl
  | branch _ _ alternative => cases alternative <;> rfl
  | select _ _ fallback => cases fallback <;> rfl
  | returns value => cases value <;> rfl
  | _ => rfl

theorem Stmt.lexemes_ne_nil {stmt : Stmt} (h : stmt.passes style.check = true) :
    stmt.lexemes style ≠ [] := by
  intro hnil
  have hstart := Stmt.front_lexemes h
  rw [hnil] at hstart
  exact absurd hstart (by decide)

/-! ## Lists -/

theorem Expr.lexemesEach_eq (l : List Expr) :
    Expr.lexemesEach style l = l.map (Expr.placed style 0) := by
  induction l with
  | nil => rfl
  | cons e l ih => rw [Expr.lexemesEach, ih, List.map_cons, Expr.placed]

theorem Expr.pairLexemes_eq (l : List (Expr × Expr)) :
    Expr.pairLexemes style l =
      l.map fun p => p.1.placed style 0 ++ .mark .colon :: p.2.placed style 0 := by
  induction l with
  | nil => rfl
  | cons p l ih => rw [Expr.pairLexemes, ih, List.map_cons, Expr.placed, Expr.placed]

theorem Stmt.lexemesAll_eq (l : List Stmt) :
    Stmt.lexemesAll style l = sequence (Stmt.lexemes style) l := by
  induction l with
  | nil => rfl
  | cons stmt l ih =>
    rw [Stmt.lexemesAll, ih, sequence, sequence, List.flatMap_cons, List.append_assoc]
    rfl

theorem Stmt.caseLexemes_eq (l : List (Expr × List Stmt)) :
    Stmt.caseLexemes style l =
      l.flatMap (Grammar.caseLexemes (Expr.placed style 0) (Stmt.lexemes style)) := by
  induction l with
  | nil => rfl
  | cons c l ih =>
    rw [Stmt.caseLexemes, ih, List.flatMap_cons, Grammar.caseLexemes, Stmt.lexemesAll_eq]
    simp [Expr.placed]

theorem FunctionDecl.lexemes_eq (decl : FunctionDecl) :
    decl.lexemes style = functionTail (Stmt.lexemes style) decl.params (decl.body.getD []) := by
  obtain ⟨name, params, body, isInit⟩ := decl
  cases body with
  | none => rfl
  | some body => rw [FunctionDecl.lexemes, functionTail, Stmt.lexemesAll_eq]; rfl

theorem FunctionDecl.lexemesAll_eq (l : List FunctionDecl) :
    FunctionDecl.lexemesAll style l = l.flatMap (methodLexemes (Stmt.lexemes style)) := by
  induction l with
  | nil => rfl
  | cons decl l ih =>
    rw [FunctionDecl.lexemesAll, ih, List.flatMap_cons, methodLexemes, FunctionDecl.lexemes_eq]
    rfl

theorem PropertyDecl.lexemesAll_eq (l : List PropertyDecl) :
    PropertyDecl.lexemesAll style l = l.flatMap (propertyLexemes (Expr.placed style 0)) := by
  induction l with
  | nil => rfl
  | cons decl l ih =>
    obtain ⟨name, typeName, initial⟩ := decl
    rw [PropertyDecl.lexemesAll, ih, List.flatMap_cons]
    cases initial <;> simp [PropertyDecl.lexemes, propertyLexemes, propertyTail, Expr.placed]

/-! ## Lengths -/

theorem length_le_flatMap {α : Type} {f : α → List Lexeme} {a : α} {l : List α} (h : a ∈ l) :
    (f a).length ≤ (l.flatMap f).length :=
  (List.sublist_flatten_of_mem (List.mem_map_of_mem h)).length_le

theorem length_le_sequence {w : Stmt → List Lexeme} {stmt : Stmt} {l : List Stmt} (h : stmt ∈ l) :
    (w stmt).length < (sequence w l).length := by
  have hle := length_le_flatMap (f := fun stmt => w stmt ++ [.mark .semicolon]) h
  rw [List.length_append, List.length_singleton] at hle
  exact hle

theorem length_le_commas {ls : List Lexeme} {l : List (List Lexeme)} (h : ls ∈ l) :
    ls.length ≤ (commas l).length := by
  fun_induction commas l with
  | case1 => simp at h
  | case2 => simp_all
  | case3 first next rest ih =>
    rw [List.length_append, List.length_cons]
    obtain rfl | h := List.mem_cons.mp h
    · omega
    · have := ih h
      omega

end RouteScript
