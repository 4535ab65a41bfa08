import Mathlib.Data.ENat.Basic
import RouteScript.Proofs.Eval.Halting

/-!
# Programs that come to an end

A program without loops that have a condition, without channels and futures, and without other
scripts comes to an end for every limit on calls, if the defaults of its classes do not make objects
in a circle. The limit has no part in such a circle: a class whose default makes an object of the
same class is never done.
-/

namespace RouteScript

open Relation (ReflTransGen TransGen)

/-! ## Bounded code -/

/-- Whether an expression by itself names neither of the functions that make tasks and channels. -/
def Expr.isBounded : Expr → Bool
  | .name word => word != "async" && word != "make_chan"
  | _ => true

/-- Whether a parent ranks no higher than the class, and defaults make objects of lower classes
only. A default that asks for a member is not ranked, whatever the member is: a member of a class is
one of a new object, and which class that is cannot be read off the default. -/
def ClassDecl.isRanked (rank : String → Nat) (decl : ClassDecl) : Bool :=
  decl.parent.all (rank · ≤ rank decl.name) &&
    decl.properties.all fun property => property.initial.all fun e =>
      (Job.expr e).all (·.buildsOnly (rank · < rank decl.name))

def Stmt.isBounded (rank : String → Nat) : Stmt → Bool
  | .classDef decl => decl.isRanked rank
  | stmt => !stmt.isUnbounded

def NodeCheck.bounded (rank : String → Nat) : NodeCheck := ⟨Expr.isBounded, Stmt.isBounded rank⟩

def Policy.bounded (rank : String → Nat) : Policy where
  code := .bounded rank
  builtin b := b ≠ .async ∧ b ≠ .makeChan
  known _ := false
  table := ClassTable.Checked (ClassDecl.isRanked rank)
  unbounded := False
  builtin_of_name {word b} hword hb := by
    obtain rfl := Builtin.name_of_ofName? hb
    constructor <;> rintro rfl <;> simp [NodeCheck.bounded, Expr.isBounded, Builtin.name] at hword
  unbounded_of_builtin hb := by
    rintro (rfl | rfl)
    · exact hb.1 rfl
    · exact hb.2 rfl
  unbounded_of_stmt {stmt} hcheck hstmt := by
    cases stmt <;> simp_all [NodeCheck.bounded, Stmt.isBounded, Stmt.isUnbounded]
  register hcheck ht hok := ht.register hcheck hok

/-! ## Jobs -/

section Jobs

variable {rank : String → Nat} {limit calls : Nat}

def CallsHalt (rank : String → Nat) (limit calls : Nat) : Prop :=
  ∀ decl args this, decl.passes (NodeCheck.bounded rank) →
    (∀ v ∈ args, v.Obeys (.bounded rank)) → (∀ v ∈ this, v.Obeys (.bounded rank)) →
    HaltsAt (.bounded rank) limit calls (fun ev => ev.invokeFunction decl args this)
      (Value.Obeys (.bounded rank))

def JobHalts (rank : String → Nat) (limit calls : Nat) (job : Job) : Prop :=
  HaltsAt (.bounded rank) limit calls (fun ev => ev.run job) (Value.Obeys (.bounded rank))

/-- A job halts if the jobs inside it and all calls do. -/
theorem jobHalts_of_covers (hcalls : CallsHalt rank limit calls) {R : Reach (.bounded rank)}
    (hR : ∀ job, R.job job → JobHalts rank limit calls job) (home : R.atHome) {job : Job}
    (h : R.Covers job) : JobHalts rank limit calls job :=
  .run ((Evaluator.flow_step h).haltsAt id home hR hcalls)

/-- A value that is called without arguments starts no jobs but the body of a function. -/
theorem jobHalts_call (hcalls : CallsHalt rank limit calls) {v : Value}
    (hv : v.Obeys (.bounded rank)) : JobHalts rank limit calls (.call v []) := by
  let R : Reach (.bounded rank) := {
    job _ := False
    builds _ := False
    atHome := True
    starts := True
    initial _ _ h := h.elim }
  refine jobHalts_of_covers hcalls (R := R) (fun _ h => h.elim) trivial
    ⟨⟨hv, by simp⟩, fun _ => trivial, fun _ => trivial, fun part hpart => ?_, fun _ h => h.elim,
      fun _ _ h => by cases h⟩
  obtain ⟨first, hfirst, -⟩ := TransGen.head'_iff.mp hpart
  simp [Job.HasPart, Job.parts] at hfirst

/-- Defaults of a class make objects of lower classes only. -/
theorem lt_rank_of_initial {table : ClassTable} (ht : table.Checked (ClassDecl.isRanked rank))
    {className : String} {entry : ClassEntry} (hentry : entry ∈ table.chain className)
    {property : PropertyDecl} (hproperty : property ∈ entry.decl.properties) {e : Expr}
    (he : property.initial = some e) {part : Job} (hpart : ReflTransGen Job.HasPart (.expr e) part)
    {built : String} (hbuilt : part.MayBuild built) : rank built < rank className := by
  have hparent (decl : ClassDecl) (hdecl : decl.isRanked rank)
      (hle : rank decl.name ≤ rank className) (parent : String) (hparent : parent ∈ decl.parent) :
      rank parent ≤ rank className := by
    simp only [ClassDecl.isRanked, Bool.and_eq_true, Option.all_eq_true] at hdecl
    exact Nat.le_trans (of_decide_eq_true (hdecl.1 parent hparent)) hle
  have hle := ht.of_mem_chain (P := (rank · ≤ rank className)) hparent (Nat.le_refl _) hentry
  have hranked := ht.decl entry (ClassTable.mem_of_mem_chain hentry)
  simp only [ClassDecl.isRanked, Bool.and_eq_true, List.all_eq_true, Option.all_eq_true] at hranked
  have hbuilds := Job.all_iff.mp (hranked.2 property hproperty e he) part hpart
  exact Nat.lt_of_lt_of_le (of_decide_eq_true (Job.allows_of_buildsOnly hbuilds hbuilt)) hle

/-- A job comes to an end if calls do. The induction is on the bound for the ranks of the classes
that it makes objects of, and inside that on its parts. -/
theorem jobHalts_of_lt (hcalls : CallsHalt rank limit calls) (bound : ℕ∞) {job : Job}
    (hobeys : job.Obeys (.bounded rank))
    (hbuilds : ∀ part, ReflTransGen Job.HasPart job part → ∀ className,
      part.MayBuild className → (rank className : ℕ∞) < bound) :
    JobHalts rank limit calls job := by
  induction bound using WellFoundedLT.induction generalizing job with
  | _ bound ihbound =>
    let R : Reach (.bounded rank) := {
      job := JobHalts rank limit calls
      builds className := (rank className : ℕ∞) < bound
      atHome := True
      starts := True
      initial := by
        intro table className entry property e htable hcode hclass hentry hproperty he
        have hpasses := ClassTable.passes_of_initial hcode hentry hproperty he
        refine ihbound _ hclass hpasses fun part hpart built h => ?_
        exact_mod_cast lt_rank_of_initial htable hentry hproperty he hpart h }
    induction job using Job.wellFounded_hasPart.induction with
    | _ job ih =>
      refine jobHalts_of_covers hcalls (R := R) (fun _ h => h) trivial {
        obeys := hobeys
        home := fun _ => trivial
        starts := fun _ => trivial
        parts := fun part hpart => ih part hpart (hobeys.of_transGen hpart) fun inner hinner => ?_
        builds := hbuilds job .refl
        back := fun v hv _ => jobHalts_call hcalls hv }
      exact hbuilds inner (hpart.to_reflTransGen.trans hinner)

/-- A job halts if calls do. The induction is on the weight, since parts weigh less. -/
theorem jobHalts_of_callsHalt (hcalls : CallsHalt rank limit calls) {job : Job}
    (hobeys : job.Obeys (.bounded rank)) : JobHalts rank limit calls job :=
  jobHalts_of_lt hcalls ⊤ hobeys fun _ _ _ _ => ENat.natCast_lt_top _

/-- Calls come to an end. The induction is on the number of calls that the limit still allows. -/
theorem callsHalt (rank : String → Nat) (limit calls : Nat) : CallsHalt rank limit calls := by
  induction hleft : limit - calls generalizing calls with
  | zero =>
    refine fun decl args this _ hargs hthis => .invokeFunction hargs hthis fun _ _ hlt => ?_
    omega
  | succ left ih =>
    intro decl args this hdecl hargs hthis
    refine .invokeFunction hargs hthis fun body hbody _ => ?_
    have hobeys : (Job.block body).Obeys (.bounded rank) :=
      FunctionDecl.passes_iff.mp hdecl body hbody
    exact jobHalts_of_callsHalt (ih (calls + 1) (by omega)) hobeys

/-- A bounded program halts, its main class included. -/
theorem haltsAt_program {p : Program} (hp : Stmt.allPass (.bounded rank) p.statements) :
    HaltsAt (.bounded rank) limit calls (fun ev => ev.program p) (Value.Obeys (.bounded rank)) := by
  have hcalls := callsHalt rank limit calls
  have hobeys : (Job.block p.statements).Obeys (.bounded rank) := hp
  exact (Evaluator.flow_program (Reach.full_covers hobeys) trivial).haltsAt id trivial
    (fun job hjob => jobHalts_of_callsHalt hcalls hjob) hcalls

end Jobs

/-! ## A class that is never done -/

/-- Where the first property of a class makes an object of the same class, no number of levels is
enough for an object of it. -/
theorem perform_create_starves {table : ClassTable} {className : String} {property : PropertyDecl}
    {rest : List PropertyDecl} (hcontains : table.contains className)
    (hproperties : (table.chain className).reverse.flatMap (·.decl.properties) = property :: rest)
    (hinitial : property.initial = some (.create className [])) (host : HostHandler) (n : Nat)
    (t : Task) {s : Store} (hs : s.classes = table) :
    ∃ t' s', Evaluator.perform host n (.expr (.create className [])) t s =
      .finished .starved t' s' := by
  induction n generalizing s with
  | zero => exact ⟨t, s, rfl⟩
  | succ n ih =>
    subst hs
    let fresh := s.newObject className []
    obtain ⟨t', s', hinner⟩ := ih (s := fresh.2) rfl
    let ev : Evaluator := ⟨Evaluator.perform host n, n, host⟩
    have hnew : ev.newObject className t s = .finished .starved t' s' := by
      rw [ev.newObject_apply t hcontains, hproperties, ev.fillProperties_apply _ hinitial]
      exact congrArg (fun r => (Run.bind _ r).bind _) hinner
    exact ⟨t', s', congrArg (Run.bind _) (congrArg (Run.bind _) hnew)⟩

def ClassDecl.selfMade : ClassDecl :=
  ⟨"Loop", none, [⟨"next", none, some (.create "Loop" [])⟩], []⟩

def Program.selfMade : Program := ⟨[.classDef .selfMade, .expr (.create "Loop" [])]⟩

theorem program_selfMade_starves (host : HostHandler) (n : Nat) (t : Task) {s : Store}
    {table : ClassTable} (hregister : s.classes.register .selfMade = .ok table)
    (hcontains : table.contains "Loop")
    (hproperties : (table.chain "Loop").reverse.flatMap (·.decl.properties) =
      ClassDecl.selfMade.properties) :
    ∃ t' s', (Evaluator.withLevels host n).program .selfMade t s = .finished .starved t' s' := by
  let ev := Evaluator.withLevels host n
  obtain ⟨t', s', hcreate⟩ :=
    perform_create_starves hcontains hproperties rfl host n t (s := { s with classes := table }) rfl
  have hdeclare : Evaluator.declareAll Program.selfMade.statements t s =
      .finished (.value ()) t { s with classes := table } := by
    rw [Program.selfMade, Evaluator.declareAll, Script.bind_apply, Evaluator.declareClass_eq,
      hregister]
    rfl
  have hscript : ev.script Program.selfMade.statements t s = .finished .starved t' s' := by
    rw [Evaluator.script, Script.bind_apply, hdeclare]
    exact congrArg (fun r => (Run.capture r).bind _) hcreate
  exact ⟨t', s', congrArg (Run.bind _) hscript⟩

namespace Interpreter

set_option maxRecDepth 10000 in
/-- No limit on calls and no number of levels brings such a program to an end. -/
theorem execute_selfMade (settings : Settings) (levels : Nat) :
    ({ create settings with levels }.execute .selfMade).1 = .unfinished := by
  obtain ⟨t, s, hprogram⟩ := program_selfMade_starves .none levels (create settings).task
    (s := (create settings).store) rfl rfl rfl
  unfold execute run run? evaluator
  dsimp only
  rw [show (create settings).host = .none from rfl, hprogram]
  simp only [Evaluator.settle?, Option.map_none]

/-! ## Programs -/

/-- The host adds nothing, and all code that there is already is bounded. -/
structure IsBounded (rank : String → Nat) (i : Interpreter) : Prop where
  host : i.host = .none
  task : i.task.Obeys (.bounded rank)
  store : i.store.Obeys (.bounded rank)

/-- From some number of levels on, the program ends with the same report, and the interpreter is
bounded again. -/
def Terminates (rank : String → Nat) (i : Interpreter) (p : Program) : Prop :=
  ∃ levels report final, report ≠ Report.unfinished ∧ IsBounded rank final ∧
    ∀ n, levels ≤ n → { i with levels := n }.execute p = (report, { final with levels := n })

/-- From some number of levels on, the program is given up at the same point, where some objects
hold each other in a circle. That the document which is not made there would go through this circle
is not said. -/
def MeetsCycle (i : Interpreter) (p : Program) : Prop :=
  ∃ levels t s, s.HasCycle ∧
    ∀ n, levels ≤ n → { i with levels := n }.evaluator.program p i.task i.store =
      .finished .starved t s

variable {rank : String → Nat}

/-- An interpreter is bounded at its start, whatever its files, its input and the machine are. -/
theorem isBounded_create (settings : Settings) (files : FileTree) (environment : Dict String)
    (input : List UInt8) (directory : List String) (machine : Machine) :
    IsBounded rank { create settings with
      store := { (create settings).store with
        files, environment, input, directory, machine } } where
  host := rfl
  task := ⟨⟨Dict.obeys_nil, fun _ h => by cases h⟩, fun _ h => by cases h⟩
  store := {
    functions := by simp [create]
    known := by simp [Policy.bounded]
    classes := by
      have hempty : ClassTable.Checked (ClassDecl.passes (.bounded rank)) {} := .empty
      exact (hempty.foldl_addHosted (fun _ => rfl) _).decl
    table := ClassTable.Checked.empty.foldl_addHosted
      (by simp [ClassDecl.isRanked, ClassDecl.bare]) _
    objects := by simp [create]
    channels := by simp [create]
    futures := by simp [create]
    files := fun h => h.elim }

theorem terminates_or_meetsCycle {i : Interpreter} (hi : i.IsBounded rank) {p : Program}
    (hp : Stmt.allPass (.bounded rank) p.statements) : i.Terminates rank p ∨ i.MeetsCycle p := by
  obtain ⟨levels, o, t, s, hrun, hend⟩ := haltsAt_program hp i.task i.store
    ⟨hi.task, hi.store, rfl, rfl⟩
  have hprogram (n : Nat) (hn : levels ≤ n) :
      { i with levels := n }.evaluator.program p i.task i.store = .finished o t s := by
    rw [evaluator, hi.host]
    exact hrun n hn
  cases o with
  | value v =>
    refine .inl ⟨levels, .value v, { i with task := t, store := s }, by simp,
      ⟨hi.host, hend.1.task, hend.1.store⟩, fun n hn => ?_⟩
    simp [execute, run, run?, hprogram n hn, Evaluator.settle?, Report.ofOutcome]
  | signal x =>
    refine .inl ⟨levels, .fault x.toFault, { i with task := t, store := s }, by simp,
      ⟨hi.host, hend.1.task, hend.1.store⟩, fun n hn => ?_⟩
    simp [execute, run, run?, hprogram n hn, Evaluator.settle?, Report.ofOutcome]
  | starved => exact .inr ⟨levels, t, s, hend, hprogram⟩

/-- A new interpreter is bounded, whatever its settings and surroundings are. On a bounded
interpreter a bounded program ends with a value or a fault, unless it is given up over objects that
hold each other in a circle: enough levels always give the same report, and the interpreter is
bounded again. Neither condition can go: without ranks there is a program that never ends, whatever
the limit on calls is, and no document is ever made of an object that holds itself. -/
theorem bounded_programs_terminate (rank : String → Nat) :
    (∀ settings files environment input directory machine, IsBounded rank { create settings with
      store := { (create settings).store with
        files, environment, input, directory, machine } }) ∧
    (∀ i p, IsBounded rank i → Stmt.allPass (.bounded rank) p.statements →
      i.Terminates rank p ∨ i.MeetsCycle p) ∧
    (∀ settings levels, ({ create settings with levels }.execute .selfMade).1 = .unfinished) ∧
    ∀ s ref, TransGen (Store.Holds s) (ObjectRef.id ref) ref.id →
      ∀ t, Builtin.encode (.object ref) t s = .finished .starved t s :=
  ⟨isBounded_create, fun _ _ hi hp => terminates_or_meetsCycle hi hp, execute_selfMade,
    fun _ _ h t => Builtin.encode_starves h t⟩

/-- A function that calls itself with a new object each time, whose properties are new objects; and
an object that holds itself. -/
theorem bounded_programs_terminate_endless_calls :
    let property (name : String) : PropertyDecl := ⟨name, none, some (.create "Leaf" [])⟩
    let pair : ClassDecl := ⟨"Pair", some "Leaf", [property "left", property "right"], []⟩
    let body : Block := [.returns (some (.call (.name "f") [.create "Pair" []]))]
    let p : Program := ⟨[
      .classDef (.bare "Leaf"),
      .classDef pair,
      .functionDef { name := "f", params := [⟨"x", none⟩], isInit := false, body := some body },
      .expr (.call (.name "f") [.nil])]⟩
    let rank (name : String) : Nat := if name = "Pair" then 1 else 0
    let i := create { callLimit := 3 }
    let ref : ObjectRef := ⟨0, "Leaf"⟩
    let s : Store := { objects := #[[("me", .object ref)]] }
    i.IsBounded rank ∧ Stmt.allPass (.bounded rank) p.statements ∧
      (i.execute p).1.failure? = some (.running, "maximum call depth of 3 exceeded") ∧
      (i.Terminates rank p ∨ i.MeetsCycle p) ∧
      TransGen s.Holds ref.id ref.id ∧
      Builtin.encode (.object ref) {} s = .finished .starved {} s := by
  intro property pair body p rank i ref s
  have hi : i.IsBounded rank := isBounded_create _ _ _ _ _ _
  have hleaf : (Job.expr (.create "Leaf" [])).all (·.buildsOnly (rank · < 1)) := by
    rw [Job.all]
    simp [Job.parts, Expr.parts, Job.buildsOnly, rank]
  have hpair : ClassDecl.isRanked rank pair := by
    simpa [ClassDecl.isRanked, pair, property, rank] using hleaf
  have hp : Stmt.allPass (.bounded rank) p.statements := by
    have hclass : (NodeCheck.bounded rank).stmt (.classDef pair) := hpair
    simp only [p, Stmt.allPass, Stmt.passes, hclass]
    decide
  have hholds : s.Holds 0 0 := ⟨("me", .object ref), by simp [s], ref, by simp [Value.objects], rfl⟩
  obtain ⟨-, hprogram, -, hencode⟩ := bounded_programs_terminate rank
  exact ⟨hi, hp, by decide +kernel, hprogram i p hi hp, .single hholds,
    hencode s ref (.single hholds) {}⟩

end Interpreter

end RouteScript
