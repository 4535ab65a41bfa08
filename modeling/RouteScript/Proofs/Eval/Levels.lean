import RouteScript.Proofs.Eval.Calls

/-!
# Levels

More levels make a difference to a run only where it is given up: a run that comes to its end does
so in the same way with any larger number of levels, and it waits for the same things before.
-/

namespace RouteScript

/-! ## Runs -/

namespace Run

variable {α β : Type}

/-- The second run does the same as the first one up to where the first one is given up. -/
inductive Extends : Run α → Run α → Prop
  | starved {t : Task} {s : Store} {r : Run α} : Extends (.finished .starved t s) r
  | finished {o : Outcome α} {t : Task} {s : Store} : Extends (.finished o t s) (.finished o t s)
  | waiting {r : Request} {s : Store} {resume resume' : r.Reply → Store → Run α}
    (h : ∀ reply s', Extends (resume reply s') (resume' reply s')) :
    Extends (.waiting r s resume) (.waiting r s resume')

namespace Extends

variable {r r' r'' : Run α}

theorem refl (r : Run α) : r.Extends r := by
  induction r with
  | finished o t s => exact .finished
  | waiting r s resume ih => exact .waiting ih

theorem trans (h : r.Extends r') (h' : r'.Extends r'') : r.Extends r'' := by
  induction h generalizing r'' with
  | starved => exact .starved
  | finished => exact h'
  | waiting _ ih =>
    cases h' with
    | waiting h' => exact .waiting fun reply s => ih reply s (h' reply s)

/-- A run that starts by extending another goes on to extend it. -/
theorem bind {next next' : α → Task → Store → Run β} (h : r.Extends r')
    (hnext : ∀ a t s, (next a t s).Extends (next' a t s)) :
    (r.bind next).Extends (r'.bind next') := by
  induction h with
  | starved => exact .starved
  | @finished o t s =>
    cases o with
    | value a => exact hnext a t s
    | signal x => exact .finished
    | starved => exact .starved
  | waiting _ ih => exact .waiting ih

theorem capture (h : r.Extends r') : r.capture.Extends r'.capture := by
  induction h with
  | starved => exact .starved
  | @finished o t s => cases o <;> exact .finished
  | waiting _ ih => exact .waiting ih

end Extends

end Run

/-! ## Scripts -/

/-- From every state, the second script does the same up to where the first one is given up. -/
def Script.Extends {α : Type} (m m' : Script α) : Prop := ∀ t s, (m t s).Extends (m' t s)

namespace Script.Extends

variable {α β : Type}

theorem refl (m : Script α) : m.Extends m := fun t s => .refl (m t s)

theorem trans {m m' m'' : Script α} (h : m.Extends m') (h' : m'.Extends m'') : m.Extends m'' :=
  fun t s => (h t s).trans (h' t s)

/-- Every script extends the one that gives up at once. -/
theorem starve (m : Script α) : Script.starve.Extends m := fun _ _ => .starved

theorem bind {m m' : Script α} {next next' : α → Script β} (h : m.Extends m')
    (hnext : ∀ a, (next a).Extends (next' a)) : (m >>= next).Extends (m' >>= next') :=
  fun t s => (h t s).bind fun a => hnext a

/-- What follows may go on longer. -/
theorem andThen (m : Script α) {next next' : α → Script β}
    (hnext : ∀ a, (next a).Extends (next' a)) : (m >>= next).Extends (m >>= next') :=
  (refl m).bind hnext

theorem capture {m m' : Script α} (h : m.Extends m') : m.capture.Extends m'.capture :=
  fun t s => (h t s).capture

/-- More rounds make a difference only where the loop was given up. -/
theorem repeatWhile {n n' : Nat} (h : n ≤ n') (round : Script Bool) :
    (Script.repeatWhile n round).Extends (Script.repeatWhile n' round) := by
  induction n generalizing n' with
  | zero => exact starve _
  | succ n ih =>
    obtain ⟨n', rfl⟩ := Nat.exists_eq_add_of_le' (Nat.le_of_add_left_le h)
    refine andThen round fun more => ?_
    cases more with
    | false => exact refl _
    | true => exact ih (by omega)

theorem iterate {n n' : Nat} (h : n ≤ n') (round : α → Script (Option α)) (a : α) :
    (Script.iterate n round a).Extends (Script.iterate n' round a) := by
  induction n generalizing n' a with
  | zero => exact starve _
  | succ n ih =>
    obtain ⟨n', rfl⟩ := Nat.exists_eq_add_of_le' (Nat.le_of_add_left_le h)
    refine andThen (round a) fun next => ?_
    cases next with
    | none => exact refl _
    | some next => exact ih (by omega) next

end Script.Extends

/-! ## Rules -/

/-- What the host does goes on where jobs go on. -/
def HostHandler.Extends (host : HostHandler) : Prop :=
  ∀ ev ev' : Evaluator, (∀ job, (ev.run job).Extends (ev'.run job)) →
    ∀ className ref method args, (host ev.invoke className ref method args).Extends
      (host ev'.invoke className ref method args)

/-- A call goes as far as its body does. -/
theorem Evaluator.invokeFunction_extends {ev ev' : Evaluator}
    (hrun : ∀ job, (ev.run job).Extends (ev'.run job)) (decl : FunctionDecl) (args : List Value)
    (this : Option Value) :
    (ev.invokeFunction decl args this).Extends (ev'.invokeFunction decl args this) := by
  intro t s
  cases hbody : decl.body with
  | none =>
    simp only [invokeFunction, hbody]
    exact .finished
  | some body =>
    rw [ev.invokeFunction_apply hbody, ev'.invokeFunction_apply hbody]
    split
    · exact .finished
    · have hblock : (bindParameters decl.params args >>= fun _ => ev.block body).Extends
          (bindParameters decl.params args >>= fun _ => ev'.block body) :=
        .andThen _ fun _ => hrun (.block body)
      exact (hblock (t.enter this) s).capture.bind fun _ _ _ => .refl _

theorem Evaluator.load_extends {ev ev' : Evaluator}
    (hrun : ∀ job, (ev.run job).Extends (ev'.run job)) (path : String) :
    (ev.load path).Extends (ev'.load path) := by
  refine .andThen _ fun s => .andThen _ fun t => ?_
  split
  · exact .refl _
  · rename_i place _
    split
    · exact .refl _
    · refine .andThen _ fun _ => .andThen _ fun body => .andThen _ fun _ => ?_
      exact (hrun (.load place body)).capture.bind fun _ => .refl _

/-- A rule goes on where the jobs inside it go on. -/
theorem Rule.extends {direct : Prop} {S : Store → Store → Prop} {α : Type}
    {f : Evaluator → Script α} (h : Rule direct S f) {ev ev' : Evaluator}
    (hrun : ∀ job, (ev.run job).Extends (ev'.run job)) (hrounds : ev.rounds = ev'.rounds)
    (hhost : ∀ className ref method args,
      (ev.host ev.invoke className ref method args).Extends
        (ev'.host ev'.invoke className ref method args)) :
    (f ev).Extends (f ev') := by
  induction h with
  | bind _ _ ih ihnext => exact .bind ih ihnext
  | capture _ ih => exact ih.capture
  | rounds _ ih =>
    dsimp only
    rw [hrounds]
    exact ih _
  | run job => exact hrun job
  | host className ref method args => exact hhost className ref method args
  | invoke decl args this => exact Evaluator.invokeFunction_extends hrun decl args this
  | load path => exact Evaluator.load_extends hrun path
  | _ => exact .refl _

/-- A host that follows rules goes as far as the jobs inside it do. -/
theorem HostHandler.Follows.extends {S : Store → Store → Prop} {host : HostHandler}
    (hhost : host.Follows S) : host.Extends := by
  intro ev ev' hrun className ref method args
  have hrule := hhost className ref method args
  exact @Rule.extends _ S _ _ hrule ev.bare ev'.bare hrun rfl fun _ _ _ _ => .refl _

/-! ## Rounds -/

namespace Evaluator

variable (ev : Evaluator) (rounds : Nat)

def withRounds : Evaluator := { ev with rounds }

theorem fillProperties_withRounds (ref : ObjectRef) (properties : List PropertyDecl) :
    (ev.withRounds rounds).fillProperties ref properties = ev.fillProperties ref properties := by
  induction properties with
  | nil => rfl
  | cons property rest ih =>
    simp only [fillProperties, ih]
    rfl

/-- Making an object runs no loop of its own. -/
theorem newObject_withRounds (className : String) :
    (ev.withRounds rounds).newObject className = ev.newObject className := by
  simp only [newObject, fillProperties_withRounds]

theorem create_withRounds (className : String) (args : List Value) :
    (ev.withRounds rounds).create className args = ev.create className args := by
  simp only [create, newObject_withRounds]
  rfl

theorem readMember_withRounds (object : Value) (property : String) :
    (ev.withRounds rounds).readMember object property = ev.readMember object property := by
  cases object with
  | classRef className => simp only [readMember, newObject_withRounds]
  | _ => rfl

theorem callMember_withRounds (receiver : Value) (property : String) (args : List Value) :
    (ev.withRounds rounds).callMember receiver property args =
      ev.callMember receiver property args := by
  cases receiver with
  | classRef className =>
    simp only [callMember, newObject_withRounds]
    rfl
  | _ => rfl

theorem call_withRounds (callee : Expr) (arguments : List Expr) :
    (ev.withRounds rounds).call callee arguments = ev.call callee arguments := by
  cases callee with
  | member object property access =>
    simp only [call, callMember_withRounds]
    rfl
  | _ => rfl

theorem assign_withRounds (target : Expr) (value : Value) :
    (ev.withRounds rounds).assign target value = ev.assign target value := by
  match target with
  | .name _ => rfl
  | .member object property access =>
    simp only [assign, assign_withRounds object]
    rfl
  | .index target key =>
    have ih := assign_withRounds target
    cases target with
    | name word => rfl
    | _ =>
      rw [assign]
      · simp only [ih]
        rfl
      · simp
  | .int _ | .float _ | .text _ | .bool _ | .nil | .this | .call .. | .create .. | .assign ..
  | .choice .. | .binary .. | .unary .. | .step .. | .array _ | .map _ | .block _ | .function _
  | .isset _ | .empty _ => rfl

theorem existing?_withRounds (target : Expr) :
    (ev.withRounds rounds).existing? target = ev.existing? target := by
  match target with
  | .index target (some key) =>
    simp only [existing?, existing?_withRounds target]
    rfl
  | .member object property access => simp only [existing?, existing?_withRounds object]
  | .name _ | .this | .index _ none | .int _ | .float _ | .text _ | .bool _ | .nil | .call ..
  | .create .. | .assign .. | .choice .. | .binary .. | .unary .. | .step .. | .array _ | .map _
  | .block _ | .function _ | .isset _ | .empty _ => rfl

theorem allExist_withRounds (operands : List Expr) :
    (ev.withRounds rounds).allExist operands = ev.allExist operands := by
  induction operands with
  | nil => rfl
  | cons e rest ih => simp only [allExist, existing?_withRounds, ih]

theorem entries_withRounds (found : Dict Value) (pairs : List (Expr × Expr)) :
    (ev.withRounds rounds).entries found pairs = ev.entries found pairs := by
  induction pairs generalizing found with
  | nil => rfl
  | cons pair rest ih =>
    simp only [entries, ih]
    rfl

theorem binary_withRounds (left : Expr) (op : BinaryOp) (right : Expr) :
    (ev.withRounds rounds).binary left op right = ev.binary left op right := by
  simp only [binary, readInto, assign_withRounds]
  rfl

/-- Rounds are for the loops of statements; expressions make no use of them. -/
theorem evaluate_withRounds (e : Expr) :
    (ev.withRounds rounds).evaluate e = ev.evaluate e := by
  cases e with
  | call callee arguments => exact call_withRounds ev rounds callee arguments
  | create className arguments =>
    simp only [evaluate, create_withRounds]
    rfl
  | member object property access =>
    simp only [evaluate, readMember_withRounds]
    rfl
  | assign target value =>
    simp only [evaluate, assign_withRounds]
    rfl
  | binary left op right => exact binary_withRounds ev rounds left op right
  | step operand op =>
    simp only [evaluate, assign_withRounds]
    rfl
  | map pairs => simp only [evaluate, entries_withRounds]
  | isset operands => simp only [evaluate, allExist_withRounds]
  | empty operand =>
    simp only [evaluate, existing?_withRounds]
    rfl
  | index target key => cases key <;> rfl
  | _ => rfl

theorem selectCase_withRounds (subject : Value) (cases : List (Expr × Block)) :
    (ev.withRounds rounds).selectCase subject cases = ev.selectCase subject cases := by
  induction cases with
  | nil => rfl
  | cons case rest ih =>
    simp only [selectCase, ih]
    rfl

/-! Only loops count their rounds. -/

variable {ev rounds} (h : ev.rounds ≤ rounds)

include h

/-- Only the loop over a channel counts rounds. -/
theorem forEach_withRounds (source : Value) (key : Option String) (value : String) (body : Block) :
    (ev.forEach source key value body).Extends
      ((ev.withRounds rounds).forEach source key value body) := by
  cases source with
  | channel id => exact .iterate h _ 0
  | _ => exact .refl _

/-- With more rounds a statement goes at least as far. -/
theorem statement_withRounds (stmt : Stmt) :
    (ev.statement stmt).Extends ((ev.withRounds rounds).statement stmt) := by
  cases stmt with
  | forEach iterable key value body =>
    exact .andThen _ fun source => (forEach_withRounds h source key value body).bind fun _ =>
      .refl _
  | whileLoop condition body => exact (Script.Extends.repeatWhile h _).bind fun _ => .refl _
  | doWhile body condition => exact (Script.Extends.repeatWhile h _).bind fun _ => .refl _
  | select subject cases fallback =>
    simp only [statement, selectCase_withRounds]
    exact .refl _
  | returns value => cases value <;> exact .refl _
  | _ => exact .refl _

theorem statements_withRounds (last : Value) (body : Block) :
    (ev.statements last body).Extends ((ev.withRounds rounds).statements last body) := by
  induction body generalizing last with
  | nil => exact .refl _
  | cons stmt rest ih => exact (statement_withRounds h stmt).bind ih

theorem topLevel_withRounds (last : Value) (body : Block) :
    (ev.topLevel last body).Extends ((ev.withRounds rounds).topLevel last body) := by
  induction body generalizing last with
  | nil => exact .refl _
  | cons stmt rest ih =>
    rw [topLevel, topLevel]
    split
    · exact ih last
    · refine (statement_withRounds h stmt).capture.bind fun outcome => ?_
      split
      · exact ih _
      · exact .refl _
      · exact ih _
      · exact ih _
      · exact .refl _

/-- More rounds make a difference to a job only where it is given up. -/
theorem step_withRounds (job : Job) :
    (ev.step job).Extends ((ev.withRounds rounds).step job) := by
  cases job with
  | expr e =>
    change (ev.evaluate e).Extends ((ev.withRounds rounds).evaluate e)
    rw [evaluate_withRounds]
    exact .refl _
  | block body => exact statements_withRounds h .nil body
  | call callee args => exact .refl _
  | load place body =>
    have hscript : (ev.script body).Extends ((ev.withRounds rounds).script body) :=
      .andThen _ fun _ => topLevel_withRounds h .nil body
    exact .andThen _ fun _ => hscript.bind fun _ => .refl _

omit h

/-! ## Levels -/

variable {host : HostHandler} (hhost : host.Extends) {n m : Nat}

include hhost

/-- More levels make a difference to a job only where it is given up. The induction is on the
levels: a level more means that the jobs inside go on longer, and that loops have more rounds. -/
theorem perform_extends (hnm : n ≤ m) (job : Job) :
    (perform host n job).Extends (perform host m job) := by
  induction n generalizing m job with
  | zero => exact .starve _
  | succ n ih =>
    obtain ⟨m, rfl⟩ := Nat.exists_eq_add_of_le' (Nat.le_of_add_left_le hnm)
    have hle : n ≤ m := by omega
    let inner : Evaluator := ⟨perform host m, n, host⟩
    have hrun : ∀ job, ((withLevels host n).run job).Extends (inner.run job) := ih hle
    have hjobs : ((withLevels host n).step job).Extends (inner.step job) :=
      (plain_step job).extends hrun rfl (hhost _ _ hrun)
    have hrounds : (inner.step job).Extends ((inner.withRounds m).step job) :=
      step_withRounds hle job
    exact hjobs.trans hrounds

/-- With more levels an expression goes at least as far. -/
theorem expr_extends (hnm : n ≤ m) (e : Expr) :
    ((withLevels host n).expr e).Extends ((withLevels host m).expr e) :=
  perform_extends hhost hnm (.expr e)

end Evaluator

end RouteScript
