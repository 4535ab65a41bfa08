import Mathlib.Logic.Relation
import RouteScript.Eval.Evaluator
import RouteScript.Proofs.Syntax.Tree

/-!
# The jobs inside a job

Which jobs the rule for a job may start in the place where the job itself is carried out. The bodies
of functions are not among them: they are carried out in a frame of their own, and only when the
function is called.
-/

namespace RouteScript

open Relation (ReflTransGen TransGen)

/-! ## Parts -/

/-- The jobs that are started for what is called. A name is looked up without a job. -/
def Expr.calleeParts : Expr → List Job
  | .name _ => []
  | e => [.expr e]

def Expr.parts : Expr → List Job
  | .call callee arguments => callee.calleeParts ++ arguments.map .expr
  | .create _ arguments => arguments.map .expr
  | .member object _ _ => [.expr object]
  | .index target key => .expr target :: key.toList.map .expr
  | .assign target value => [.expr target, .expr value]
  | .choice condition consequence alternative =>
    .expr condition :: .block alternative :: consequence.toList.map .block
  | .binary left _ right => [.expr left, .expr right]
  | .unary _ operand | .step operand _ | .empty operand => [.expr operand]
  | .array items | .isset items => items.map .expr
  | .map pairs => pairs.flatMap fun pair => [.expr pair.1, .expr pair.2]
  | .block body => [.block body]
  | .int _ | .float _ | .text _ | .bool _ | .nil | .name _ | .this | .function _ => []

def Stmt.parts : Stmt → List Job
  | .declare _ _ value | .returns value => value.toList.map .expr
  | .forEach iterable _ _ body => [.expr iterable, .block body]
  | .whileLoop condition body | .doWhile body condition => [.expr condition, .block body]
  | .tryCatch body _ handler => [.block body, .block handler]
  | .branch condition consequence alternative =>
    .expr condition :: .block consequence :: alternative.toList.map .block
  | .select subject cases fallback =>
    .expr subject :: (cases.flatMap (fun case => [.expr case.1, .block case.2]) ++
      fallback.toList.map .block)
  | .raise e | .echo e | .expr e => [.expr e]
  | .classDef _ | .functionDef _ | .breaks | .continues | .load _ | .package _ => []

namespace Job

def parts : Job → List Job
  | .expr e => e.parts
  | .block body | .load _ body => body.flatMap Stmt.parts
  | .call .. => []

def HasPart (job part : Job) : Prop := part ∈ job.parts

noncomputable def weight : Job → Nat
  | .expr e => sizeOf e
  | .block body | .load _ body => sizeOf body
  | .call .. => 0

end Job

/-- A part of an expression is smaller than the expression. -/
theorem Expr.weight_lt_of_mem_parts {e : Expr} {job : Job} (h : job ∈ e.parts) :
    job.weight < sizeOf e := by
  have hmem {l : List Expr} {job : Job} (h : job ∈ l.map Job.expr) : job.weight < sizeOf l := by
    obtain ⟨e, he, rfl⟩ := List.mem_map.mp h
    exact List.sizeOf_lt_of_mem he
  cases e with
  | call callee arguments =>
    obtain h | h := List.mem_append.mp h
    · have hcallee : job.weight ≤ sizeOf callee := by
        unfold calleeParts at h
        split at h <;> simp_all [Job.weight]
      simp only [call.sizeOf_spec]
      omega
    · have := hmem h
      simp only [call.sizeOf_spec]
      omega
  | create className arguments =>
    have := hmem h
    simp only [create.sizeOf_spec]
    omega
  | array items | isset items =>
    have := hmem h
    simp only [array.sizeOf_spec, isset.sizeOf_spec]
    omega
  | map pairs =>
    obtain ⟨⟨key, value⟩, hpair, h⟩ := List.mem_flatMap.mp h
    have := List.sizeOf_lt_of_mem hpair
    simp only [Prod.mk.sizeOf_spec, List.mem_cons, List.not_mem_nil, or_false] at this h
    simp only [map.sizeOf_spec]
    obtain rfl | rfl := h <;> simp only [Job.weight] <;> omega
  | index target key =>
    cases key with
    | none =>
      obtain rfl : job = .expr target := by simpa [parts] using h
      simp only [Job.weight, index.sizeOf_spec]
      omega
    | some key =>
      obtain rfl | rfl : job = .expr target ∨ job = .expr key := by simpa [parts] using h
      all_goals
        simp only [Job.weight, index.sizeOf_spec, Option.some.sizeOf_spec]
        omega
  | choice condition consequence alternative =>
    simp only [parts, List.mem_cons, List.mem_map, Option.mem_toList] at h
    obtain rfl | rfl | ⟨body, rfl, rfl⟩ := h
    all_goals
      simp only [Job.weight, choice.sizeOf_spec, Option.some.sizeOf_spec]
      omega
  | assign | binary =>
    simp only [parts, List.mem_cons, List.not_mem_nil, or_false] at h
    simp only [assign.sizeOf_spec, binary.sizeOf_spec]
    obtain rfl | rfl := h <;> simp only [Job.weight] <;> omega
  | member | unary | step | empty | block =>
    obtain rfl := List.mem_singleton.mp h
    simp only [Job.weight, member.sizeOf_spec, unary.sizeOf_spec, step.sizeOf_spec,
      empty.sizeOf_spec, block.sizeOf_spec]
    omega
  | _ => simp [parts] at h

theorem Stmt.weight_lt_of_mem_parts {stmt : Stmt} {job : Job} (h : job ∈ stmt.parts) :
    job.weight < sizeOf stmt := by
  cases stmt with
  | declare | returns =>
    simp only [parts, List.mem_map, Option.mem_toList] at h
    obtain ⟨e, rfl, rfl⟩ := h
    simp only [Job.weight, declare.sizeOf_spec, returns.sizeOf_spec, Option.some.sizeOf_spec]
    omega
  | forEach | whileLoop | doWhile | tryCatch =>
    simp only [parts, List.mem_cons, List.not_mem_nil, or_false] at h
    simp only [forEach.sizeOf_spec, whileLoop.sizeOf_spec, doWhile.sizeOf_spec,
      tryCatch.sizeOf_spec]
    obtain rfl | rfl := h <;> simp only [Job.weight] <;> omega
  | branch condition consequence alternative =>
    simp only [parts, List.mem_cons, List.mem_map, Option.mem_toList] at h
    obtain rfl | rfl | ⟨body, rfl, rfl⟩ := h
    all_goals
      simp only [Job.weight, branch.sizeOf_spec, Option.some.sizeOf_spec]
      omega
  | select subject cases fallback =>
    simp only [parts, List.mem_cons, List.mem_append, List.mem_flatMap, List.mem_map,
      Option.mem_toList, List.not_mem_nil, or_false] at h
    simp only [select.sizeOf_spec]
    obtain rfl | ⟨⟨value, body⟩, hcase, h⟩ | ⟨body, rfl, rfl⟩ := h
    · simp only [Job.weight]
      omega
    · have := List.sizeOf_lt_of_mem hcase
      simp only [Prod.mk.sizeOf_spec] at this
      obtain rfl | rfl := h <;> simp only [Job.weight] <;> omega
    · simp only [Job.weight, Option.some.sizeOf_spec]
      omega
  | raise | echo | expr =>
    obtain rfl := List.mem_singleton.mp h
    simp only [Job.weight, raise.sizeOf_spec, echo.sizeOf_spec, expr.sizeOf_spec]
    omega
  | _ => simp [parts] at h

/-- The parts of an expression are expressions and blocks, never calls or scripts. -/
theorem Expr.eq_of_mem_parts {e : Expr} {job : Job} (h : job ∈ e.parts) :
    (∃ e, job = .expr e) ∨ ∃ body, job = .block body := by
  unfold parts at h
  split at h <;> (try unfold calleeParts at h) <;> grind

theorem Stmt.eq_of_mem_parts {stmt : Stmt} {job : Job} (h : job ∈ stmt.parts) :
    (∃ e, job = .expr e) ∨ ∃ body, job = .block body := by
  unfold parts at h
  split at h <;> grind

namespace Job

/-- Only expressions and blocks stand inside other jobs. -/
theorem eq_of_hasPart {job part : Job} (h : job.HasPart part) :
    (∃ e, part = .expr e) ∨ ∃ body, part = .block body := by
  have hbody {body : Block} (h : part ∈ body.flatMap Stmt.parts) :
      (∃ e, part = .expr e) ∨ ∃ body, part = .block body := by
    obtain ⟨stmt, -, h⟩ := List.mem_flatMap.mp h
    exact Stmt.eq_of_mem_parts h
  cases job with
  | expr e => exact Expr.eq_of_mem_parts h
  | block body => exact hbody h
  | load place body => exact hbody h
  | call => simp [HasPart, parts] at h

/-- A part of a job weighs less, so that going from part to part comes to an end. -/
theorem weight_lt_of_hasPart {job part : Job} (h : job.HasPart part) :
    part.weight < job.weight := by
  have hbody {body : Block} (h : part ∈ body.flatMap Stmt.parts) : part.weight < sizeOf body := by
    obtain ⟨stmt, hstmt, h⟩ := List.mem_flatMap.mp h
    exact Nat.lt_trans (Stmt.weight_lt_of_mem_parts h) (List.sizeOf_lt_of_mem hstmt)
  cases job with
  | expr e => exact Expr.weight_lt_of_mem_parts h
  | block body => exact hbody h
  | load place body => exact hbody h
  | call => simp [HasPart, parts] at h

/-- No chain of parts goes on without end. -/
theorem wellFounded_hasPart : WellFounded fun part job : Job => TransGen HasPart job part := by
  refine Subrelation.wf ?_ (measure weight).wf
  intro part job h
  induction h with
  | single h => exact weight_lt_of_hasPart h
  | tail _ h ih => exact Nat.lt_trans (weight_lt_of_hasPart h) ih

/-! ## Code that stands in place -/

def all (test : Job → Bool) (job : Job) : Bool :=
  test job && job.parts.attach.all fun part => all test part.1
termination_by job.weight
decreasing_by exact weight_lt_of_hasPart part.2

/-- A test of a job and all that it consists of looks at every part, however deep. -/
theorem all_iff {test : Job → Bool} {job : Job} :
    job.all test ↔ ∀ part, ReflTransGen HasPart job part → test part := by
  induction job using wellFounded_hasPart.induction with
  | _ job ih =>
    have hparts : job.parts.attach.all (fun part => part.1.all test) = true ↔
        ∀ part, job.HasPart part → ∀ inner, ReflTransGen HasPart part inner → test inner := by
      simp only [List.all_eq_true, List.mem_attach, true_implies, Subtype.forall]
      exact forall₂_congr fun part h => ih part (.single h)
    rw [all, Bool.and_eq_true, hparts]
    constructor
    · rintro ⟨htest, hparts⟩ part h
      obtain rfl | ⟨first, hfirst, h⟩ := h.cases_head
      · exact htest
      · exact hparts first hfirst part h
    · intro h
      exact ⟨h job .refl, fun part hpart inner hinner => h inner (.head hpart hinner)⟩

/-- Whether a job by itself makes objects of allowed classes only. Members count as unknown: a
member of a class is one of a new object. -/
def buildsOnly (allowed : String → Bool) : Job → Bool
  | .expr (.create className _) => allowed className
  | .expr (.member ..) | .expr (.call (.member ..) _) => false
  | _ => true

/-- Whether a job is code that passes a check, the bodies of functions included. -/
def passes (c : NodeCheck) : Job → Bool
  | .expr e => e.passes c
  | .block body | .load _ body => Stmt.allPass c body
  | .call .. => false

end Job

variable {c : NodeCheck}

theorem ClassDecl.passes_iff {decl : ClassDecl} :
    decl.passes c ↔ (∀ property ∈ decl.properties, property.passes c) ∧
      ∀ method ∈ decl.methods, method.passes c := by
  cases decl
  simp [ClassDecl.passes]

theorem FunctionDecl.passes_iff {decl : FunctionDecl} :
    decl.passes c ↔ ∀ body ∈ decl.body, Stmt.allPass c body := by
  obtain ⟨_, _, body, _⟩ := decl
  cases body <;> simp [FunctionDecl.passes]

theorem PropertyDecl.passes_iff {decl : PropertyDecl} :
    decl.passes c ↔ ∀ e ∈ decl.initial, e.passes c := by
  obtain ⟨_, _, initial⟩ := decl
  cases initial <;> simp [PropertyDecl.passes]

/-- Where a check lets every node pass, all trees pass. -/
theorem NodeCheck.passes_of_forall {c : NodeCheck} (hexpr : ∀ e, c.expr e = true)
    (hstmt : ∀ stmt, c.stmt stmt = true) :
    (∀ e, Expr.passes c e = true) ∧ (∀ decl, FunctionDecl.passes c decl = true) ∧
      (∀ body, Stmt.allPass c body = true) ∧ (∀ stmt, Stmt.passes c stmt = true) ∧
      (∀ cases, Stmt.casesPass c cases = true) ∧ (∀ decl, ClassDecl.passes c decl = true) ∧
      (∀ decls, FunctionDecl.allPass c decls = true) ∧
      (∀ decls, PropertyDecl.allPass c decls = true) ∧ (∀ decl, PropertyDecl.passes c decl = true) ∧
      (∀ pairs, Expr.pairsPass c pairs = true) ∧ ∀ l, Expr.allPass c l = true := by
  apply Expr.passes.mutual_induct
  case case18 =>
    intros
    rw [Expr.passes] <;> first | exact hexpr _ | assumption
  case case34 =>
    intros
    rw [Stmt.passes] <;> first | exact hstmt _ | assumption
  all_goals
    intros
    simp only [Expr.passes, Expr.allPass, Expr.pairsPass, Stmt.passes, Stmt.allPass, Stmt.casesPass,
      FunctionDecl.passes, FunctionDecl.allPass, PropertyDecl.passes, PropertyDecl.allPass,
      ClassDecl.passes, Bool.and_self, *]

/-- A check that an expression passes is passed by its parts. -/
theorem Expr.passes_of_mem_parts {e : Expr} (he : e.passes c) {job : Job} (h : job ∈ e.parts) :
    job.passes c := by
  have hmem {l : List Expr} (hl : ∀ e ∈ l, e.passes c = true) (h : job ∈ l.map Job.expr) :
      job.passes c := by
    obtain ⟨e, he, rfl⟩ := List.mem_map.mp h
    exact hl e he
  cases e with
  | call callee arguments =>
    simp only [passes, Bool.and_eq_true, allPass_eq_true] at he
    obtain h | h := List.mem_append.mp h
    · have hcallee := he.1.2
      unfold calleeParts at h
      split at h
      · simp at h
      · obtain rfl := List.mem_singleton.mp h
        exact hcallee
    · exact hmem he.2 h
  | create className arguments =>
    simp only [passes, Bool.and_eq_true, allPass_eq_true] at he
    exact hmem he.2 h
  | array items | isset items =>
    simp only [passes, Bool.and_eq_true, allPass_eq_true] at he
    exact hmem he.2 h
  | map pairs =>
    simp only [passes, Bool.and_eq_true, pairsPass_eq_true] at he
    obtain ⟨pair, hpair, h⟩ := List.mem_flatMap.mp h
    simp only [List.mem_cons, List.not_mem_nil, or_false] at h
    obtain rfl | rfl := h
    · exact (he.2 pair hpair).1
    · exact (he.2 pair hpair).2
  | index target key =>
    cases key with
    | none =>
      obtain rfl : job = .expr target := by simpa [parts] using h
      simp only [passes, Bool.and_eq_true] at he
      exact he.2
    | some key =>
      obtain rfl | rfl : job = .expr target ∨ job = .expr key := by simpa [parts] using h
      all_goals
        simp only [passes, Bool.and_eq_true] at he
        simp [Job.passes, he]
  | choice condition consequence alternative =>
    simp only [parts, List.mem_cons, List.mem_map, Option.mem_toList] at h
    cases consequence <;> simp only [passes, Bool.and_eq_true] at he
    · obtain rfl | rfl | ⟨body, ⟨⟩, rfl⟩ := h
      · exact he.1.2
      · exact he.2
    · obtain rfl | rfl | ⟨body, ⟨⟩, rfl⟩ := h
      · exact he.1.1.2
      · exact he.2
      · exact he.1.2
  | assign | binary =>
    simp only [parts, List.mem_cons, List.not_mem_nil, or_false] at h
    simp only [passes, Bool.and_eq_true] at he
    obtain rfl | rfl := h
    · exact he.1.2
    · exact he.2
  | member | unary | step | empty | block =>
    obtain rfl := List.mem_singleton.mp h
    simp only [passes, Bool.and_eq_true] at he
    exact he.2
  | _ => simp [parts] at h

theorem Stmt.passes_of_mem_parts {stmt : Stmt} (hstmt : stmt.passes c) {job : Job}
    (h : job ∈ stmt.parts) : job.passes c := by
  cases stmt with
  | declare | returns =>
    simp only [parts, List.mem_map, Option.mem_toList] at h
    obtain ⟨e, rfl, rfl⟩ := h
    simp only [passes, Bool.and_eq_true] at hstmt
    exact hstmt.2
  | forEach | whileLoop =>
    simp only [parts, List.mem_cons, List.not_mem_nil, or_false] at h
    simp only [passes, Bool.and_eq_true] at hstmt
    obtain rfl | rfl := h
    · exact hstmt.1.2
    · exact hstmt.2
  | doWhile | tryCatch =>
    simp only [parts, List.mem_cons, List.not_mem_nil, or_false] at h
    simp only [passes, Bool.and_eq_true] at hstmt
    obtain rfl | rfl := h
    all_goals simp [Job.passes, hstmt]
  | branch condition consequence alternative =>
    simp only [parts, List.mem_cons, List.mem_map, Option.mem_toList] at h
    cases alternative <;> simp only [passes, Bool.and_eq_true] at hstmt
    · obtain rfl | rfl | ⟨body, ⟨⟩, rfl⟩ := h
      · exact hstmt.1.2
      · exact hstmt.2
    · obtain rfl | rfl | ⟨body, ⟨⟩, rfl⟩ := h
      · exact hstmt.1.1.2
      · exact hstmt.1.2
      · exact hstmt.2
  | select subject cases fallback =>
    simp only [parts, List.mem_cons, List.mem_append, List.mem_flatMap, List.mem_map,
      Option.mem_toList, List.not_mem_nil, or_false] at h
    have hcase (hcases : Stmt.casesPass c cases) (case : Expr × List Stmt) (hcase : case ∈ cases)
        (h : job = .expr case.1 ∨ job = .block case.2) : job.passes c := by
      have := casesPass_eq_true.mp hcases case hcase
      simp only [Bool.and_eq_true] at this
      obtain rfl | rfl := h
      · exact this.1
      · exact this.2
    cases fallback <;> simp only [passes, Bool.and_eq_true] at hstmt
    · obtain rfl | ⟨case, hmem, h⟩ | ⟨body, ⟨⟩, rfl⟩ := h
      · exact hstmt.1.2
      · exact hcase hstmt.2 case hmem h
    · obtain rfl | ⟨case, hmem, h⟩ | ⟨body, ⟨⟩, rfl⟩ := h
      · exact hstmt.1.1.2
      · exact hcase hstmt.1.2 case hmem h
      · exact hstmt.2
  | raise | echo | expr =>
    obtain rfl := List.mem_singleton.mp h
    simp only [passes, Bool.and_eq_true] at hstmt
    exact hstmt.2
  | _ => simp [parts] at h

/-- A check that a job passes is passed by its parts. -/
theorem Job.passes_of_hasPart {job part : Job} (hjob : job.passes c) (h : job.HasPart part) :
    part.passes c := by
  have hbody {body : Block} (hbody : Stmt.allPass c body) (h : part ∈ body.flatMap Stmt.parts) :
      part.passes c := by
    obtain ⟨stmt, hstmt, h⟩ := List.mem_flatMap.mp h
    exact Stmt.passes_of_mem_parts (Stmt.allPass_eq_true.mp hbody stmt hstmt) h
  cases job with
  | expr e => exact Expr.passes_of_mem_parts hjob h
  | block body => exact hbody hjob h
  | load place body => exact hbody hjob h
  | call => simp [HasPart, parts] at h

end RouteScript
