import RouteScript.Proofs.Eval.ServiceRules

/-!
# Expressions and statements are rules

Every job is carried out by a rule: calls, assignments, expressions, statements and whole scripts
are put together from the pieces of rules.
-/

namespace RouteScript.Evaluator

open Store (Step)

/-! ## Calls -/

/-- A method of a script is called as a function, one of a hosted class is left to its service. -/
theorem plain_callMethod (method : FunctionDecl) (receiver : ObjectRef) (args : List Value) :
    PlainRule Step fun ev => ev.callMethod method receiver args := by
  refine .ite (.invoke _ _ _) (.bind .store fun s => ?_)
  cases s.classes.hostedAncestor? receiver.className with
  | none => exact .fail _
  | some className =>
    dsimp only
    cases Dict.get? className s.services with
    | none => exact .fail _
    | some service => exact service.plain_call _ _ _ _

theorem plain_initialValue (property : PropertyDecl) :
    PlainRule Step fun ev => ev.initialValue property := by
  unfold initialValue
  cases property.initial with
  | some e => exact .expr e
  | none => cases property.typeName <;> exact .pure _

/-- The properties get their first values one after the other. -/
theorem plain_fillProperties (ref : ObjectRef) (properties : List PropertyDecl) :
    PlainRule Step fun ev => ev.fillProperties ref properties := by
  induction properties with
  | nil => exact .pure ()
  | cons property rest ih =>
    exact .bind (plain_initialValue property) fun _ =>
      .bind (Script.plain_setField _ _ _) fun _ => ih

theorem plain_newObject (className : String) : PlainRule Step fun ev => ev.newObject className :=
  .bind .store fun _ => .ite
    (.bind (.update fun _ => .object className []) fun ref =>
      .bind (plain_fillProperties ref _) fun _ => .pure ref)
    (.fail _)

/-- An object is made before its constructor is called, which is one of a script or of a service. -/
theorem plain_create (className : String) (args : List Value) :
    PlainRule Step fun ev => ev.create className args := by
  refine .bind (plain_newObject className) fun ref => .bind .store fun s => ?_
  cases s.classes.findMethod? className "constructor" with
  | some constructor => exact .bind (plain_callMethod _ _ _) fun _ => .pure ref
  | none =>
    cases (s.classes.hostedAncestor? className).bind fun name =>
        (Dict.get? name s.services).map (name, ·) with
    | some hosted => exact .bind (hosted.2.plain_call _ _ _ _) fun _ => .pure ref
    | none => exact .pure ref

theorem plain_callValue (callee : Value) (args : List Value) :
    PlainRule Step fun ev => ev.callValue callee args := by
  cases callee with
  | function decl => exact .bind .scope fun _ => .invoke _ _ _
  | method decl receiver => exact plain_callMethod decl receiver args
  | builtin b => exact b.plain_call args
  | _ => exact .fail _

/-- A name stands for a function, a builtin or a variable, in this order. -/
theorem plain_callNamed (word : String) (args : List Value) :
    PlainRule Step fun ev => ev.callNamed word args := by
  refine .bind .store fun s => ?_
  cases Dict.get? word s.functions with
  | some decl => exact .invoke _ _ _
  | none =>
    cases Builtin.ofName? word with
    | some b => exact b.plain_call args
    | none =>
      refine .bind .scope fun scope => ?_
      cases scope.get? word with
      | some v => exact plain_callValue v args
      | none => exact .fail _

theorem plain_callMember (receiver : Value) (property : String) (args : List Value) :
    PlainRule Step fun ev => ev.callMember receiver property args := by
  cases receiver with
  | object ref =>
    refine .bind .store fun s => ?_
    cases (Dict.get? property (s.fields ref)).filter Value.isCallable with
    | some v => exact plain_callValue v args
    | none =>
      cases s.classes.resolve? ref.className property with
      | some decl => exact plain_callMethod _ _ _
      | none => exact .fail _
  | classRef className =>
    refine .bind .store fun s => ?_
    cases s.classes.resolve? className property with
    | some decl => exact .bind (plain_newObject className) fun _ => plain_callMethod _ _ _
    | none => exact .fail _
  | map entries =>
    simp only [callMember]
    cases (Dict.get? property entries).filter Value.isCallable with
    | some v => exact plain_callValue v args
    | none => exact .fail _
  | _ => exact .fail _

theorem plain_spawnExpr (arguments : List Expr) : PlainRule Step fun _ => spawnExpr arguments := by
  match arguments with
  | [e] => exact Script.plain_spawn _
  | [] | _ :: _ :: _ => exact .fail _

/-- Arguments are evaluated before the call, but for those of `async`, which are left to a new task.
-/
theorem plain_call (callee : Expr) (arguments : List Expr) :
    PlainRule Step fun ev => ev.call callee arguments := by
  have other (e : Expr) :
      PlainRule Step (fun ev => do
        let callee ← ev.expr e
        let args ← ev.exprs arguments
        ev.callValue callee args) :=
    .bind (.expr e) fun callee => .bind (.exprs arguments) fun args => plain_callValue callee args
  cases callee with
  | name word =>
    exact .bind .scope fun _ => .ite (plain_spawnExpr arguments)
      (.bind (.exprs arguments) fun args => plain_callNamed word args)
  | member object property access =>
    exact .bind (.expr object) fun receiver => .bind (.exprs arguments) fun args =>
      plain_callMember receiver property args
  | _ => exact other _

theorem plain_pipe (input : Value) (target : Expr) :
    PlainRule Step fun ev => ev.pipe input target := by
  have other (e : Expr) (args : List Value) :
      PlainRule Step (fun ev => do
        let callee ← ev.expr e
        ev.callValue callee (input :: args)) :=
    .bind (.expr e) fun callee => plain_callValue callee _
  cases target with
  | name word => exact plain_callNamed word _
  | call callee arguments =>
    refine .bind (.exprs arguments) fun args => ?_
    cases callee with
    | name word => exact plain_callNamed word _
    | _ => exact other _ args
  | _ => exact other _ []

/-! ## Targets -/

theorem plain_key (key : Option Expr) : PlainRule Step fun ev => key.mapM ev.expr := by
  cases key with
  | none => exact .pure none
  | some e => exact .map (.expr e) some

/-- Every target is written through variables in sight or through the store. -/
theorem plain_assign (target : Expr) (value : Value) :
    PlainRule Step fun ev => ev.assign target value := by
  match target with
  | .name word => exact .assign word value
  | .member object property access =>
    refine .bind (.expr object) fun v => ?_
    cases v with
    | object ref => exact Script.plain_setField _ _ _
    | map entries => exact .ite (.fail _) (plain_assign object _)
    | nil => exact .ite (.fail _) (plain_assign object _)
    | _ => exact .fail _
  | .index target key =>
    have ih (changed : Value) : PlainRule Step fun ev => ev.assign target changed :=
      plain_assign target changed
    cases target with
    | name word => exact .bind (plain_key key) fun key => .storeIn word key value
    | _ =>
      refine .bind (plain_key key) fun key => .bind (.expr _) fun container =>
        .bind (.ofExcept _) fun placed => ?_
      cases placed with
      | container changed => exact ih changed
      | field ref field => exact Script.plain_setField _ _ _
  | .int _ | .float _ | .text _ | .bool _ | .nil | .this | .call .. | .create .. | .assign ..
  | .choice .. | .binary .. | .unary .. | .step .. | .array _ | .map _ | .block _ | .function _
  | .isset _ | .empty _ => exact .fail _

theorem plain_existing? (target : Expr) : PlainRule Step fun ev => ev.existing? target := by
  match target with
  | .name word => exact .bind .scope fun _ => .pure _
  | .this => exact .bind .scope fun _ => .pure _
  | .index target (some key) =>
    refine .bind (plain_existing? target) fun v => ?_
    cases v with
    | none => exact .pure none
    | some container => exact .bind (.expr key) fun _ => .bind .store fun _ => .pure _
  | .member object property access =>
    refine .bind (plain_existing? object) fun v => ?_
    cases v with
    | none => exact .pure none
    | some container => exact .bind .store fun _ => .pure _
  | .index _ none | .int _ | .float _ | .text _ | .bool _ | .nil | .call .. | .create ..
  | .assign .. | .choice .. | .binary .. | .unary .. | .step .. | .array _ | .map _ | .block _
  | .function _ | .isset _ | .empty _ => exact .pure none

theorem plain_allExist (operands : List Expr) : PlainRule Step fun ev => ev.allExist operands := by
  induction operands with
  | nil => exact .pure true
  | cons e rest ih =>
    refine .bind (plain_existing? e) fun v => ?_
    cases v with
    | none => exact .pure false
    | some _ => exact ih

/-! ## Expressions -/

theorem plain_readMember (object : Value) (property : String) :
    PlainRule Step fun ev => ev.readMember object property := by
  cases object with
  | object ref =>
    refine .bind .store fun s => ?_
    split <;> exact .pure _
  | classRef className =>
    refine .bind (plain_newObject className) fun receiver => .bind .store fun s => ?_
    split
    · exact .pure _
    · exact .fail _
  | map entries => exact .pure _
  | nil => exact .pure _
  | _ => exact .fail _

theorem plain_readLine : PlainRule Step fun _ => readLine := by
  refine .bind .store fun s => .ite (.pure _) ?_
  refine .bind (.modifyStore fun _ => .input _) fun _ => ?_
  split
  · exact .fail _
  · exact .pure _

theorem plain_readInto (target : Expr) : PlainRule Step fun ev => ev.readInto target := by
  refine .bind plain_readLine fun line => ?_
  cases target with
  | name word => exact .bind .scope fun _ => plain_assign _ _
  | _ => exact plain_assign _ _

theorem plain_binary (left : Expr) (op : BinaryOp) (right : Expr) :
    PlainRule Step fun ev => ev.binary left op right := by
  refine .bind (.expr left) fun first => ?_
  have other : PlainRule Step (fun ev => do
      let second ← ev.expr right
      first.binary op second) :=
    .bind (.expr right) fun second => .ofExcept _
  cases op with
  | and => exact .ite (.bind (.test right) fun _ => .pure _) (.pure _)
  | or => exact .ite (.pure _) (.bind (.test right) fun _ => .pure _)
  | nullCoalesce =>
    cases first with
    | nil => exact .expr right
    | _ => exact .pure _
  | pipe => exact plain_pipe first right
  | shiftRight =>
    cases first with
    | stream end_ =>
      cases end_ with
      | input => exact .bind (plain_readInto right) fun _ => .pure _
      | output => exact other
    | _ => exact other
  | shiftLeft =>
    cases first with
    | stream end_ =>
      cases end_ with
      | input => exact other
      | output =>
        exact .bind (.expr right) fun _ => .bind (Script.plain_write _) fun _ => .pure _
    | channel id =>
      exact .bind (.expr right) fun _ => .bind (Script.plain_send _ _) fun _ => .pure _
    | _ => exact other
  | _ => exact other

theorem plain_entries (found : Dict Value) (pairs : List (Expr × Expr)) :
    PlainRule Step fun ev => ev.entries found pairs := by
  induction pairs generalizing found with
  | nil => exact .pure found
  | cons pair rest ih =>
    exact .bind (.expr pair.1) fun _ => .bind (.expr pair.2) fun _ => ih _

/-- Every expression is evaluated by a rule, one case for each kind of expression. -/
theorem plain_evaluate (e : Expr) : PlainRule Step fun ev => ev.evaluate e := by
  cases e with
  | int n => exact .pure _
  | float x => exact .pure _
  | text s => exact .pure _
  | bool b => exact .pure _
  | nil => exact .pure _
  | name word => exact .bind .task fun _ => .bind .store fun _ => .pure _
  | this => exact .bind .scope fun _ => .pure _
  | call callee arguments => exact plain_call callee arguments
  | create className arguments =>
    exact .bind (.exprs arguments) fun args => .bind (plain_create className args) fun _ => .pure _
  | member object property access =>
    exact .bind (.expr object) fun v => plain_readMember v property
  | index target key =>
    cases key with
    | none => exact .fail _
    | some key =>
      exact .bind (.expr target) fun _ => .bind (.expr key) fun _ => .bind .store fun _ =>
        .ofExcept _
  | assign target value =>
    exact .bind (.expr value) fun v => .bind (plain_assign target v) fun _ => .pure v
  | choice condition consequence alternative =>
    refine .bind (.expr condition) fun v => .ite ?_ (.block alternative)
    cases consequence with
    | some body => exact .block body
    | none => exact .pure v
  | binary left op right => exact plain_binary left op right
  | unary op operand => exact .bind (.expr operand) fun _ => .ofExcept _
  | step operand op =>
    exact .bind (.expr operand) fun current => .bind (.ofExcept _) fun next =>
      .bind (plain_assign operand next) fun _ => .pure current
  | array items => exact .bind (.exprs items) fun _ => .pure _
  | map pairs => exact .bind (plain_entries [] pairs) fun _ => .pure _
  | block body => exact .block body
  | function decl => exact .pure _
  | isset operands => exact .bind (plain_allExist operands) fun _ => .pure _
  | empty operand =>
    exact .ite (.bind (plain_existing? operand) fun _ => .pure _)
      (.bind (.map (.expr operand) some) fun _ => .pure _)

/-! ## Statements -/

theorem plain_declareFunction (decl : FunctionDecl) :
    PlainRule Step fun _ => declareFunction decl :=
  .modifyStore fun _ => .function decl

theorem plain_declareAll (body : Block) : PlainRule Step fun _ => declareAll body := by
  induction body with
  | nil => exact .pure ()
  | cons stmt rest ih =>
    cases stmt with
    | classDef decl => exact .bind (.declareClass decl) fun _ => ih
    | functionDef decl => exact .bind (plain_declareFunction decl) fun _ => ih
    | _ => exact ih

theorem plain_round (body : Block) : PlainRule Step fun ev => ev.round body := by
  refine .bind (.capture (.block body)) fun outcome => ?_
  match outcome with
  | .ok _ | .error .continued => exact .pure true
  | .error .broken => exact .pure false
  | .error (.returned _) | .error (.thrown _) | .error (.failed _) => exact .signal _

theorem plain_visit (key : Option String) (value : String) (body : Block) (entry : Value × Value) :
    PlainRule Step fun ev => ev.visit key value body entry := by
  have rest := Rule.bind (S := Step) (.assign value entry.2) fun _ => plain_round body
  cases key with
  | none => exact rest
  | some key => exact .bind (.assign key entry.1) fun _ => rest

/-- A loop goes through the entries of a value, or receives from a channel until that ends. -/
theorem plain_forEach (source : Value) (key : Option String) (value : String) (body : Block) :
    PlainRule Step fun ev => ev.forEach source key value body := by
  cases source with
  | channel id =>
    refine .iterate (fun i => ?_) 0
    refine .bind (.request (.take id)) fun item => ?_
    cases item with
    | none => exact .pure none
    | some item => exact .bind (plain_visit key value body _) fun _ => .ite (.pure _) (.pure _)
  | array items => exact .forWhile (plain_visit key value body) _
  | map entries => exact .forWhile (plain_visit key value body) _
  | object ref => exact .bind .store fun _ => .forWhile (plain_visit key value body) _
  | nil => exact .pure ()
  | _ => exact .fail _

theorem plain_selectCase (subject : Value) (cases : List (Expr × Block)) :
    PlainRule Step fun ev => ev.selectCase subject cases := by
  induction cases with
  | nil => exact .pure none
  | cons case rest ih => exact .bind (.expr case.1) fun _ => .ite (.pure _) ih

theorem plain_runCase (body : Block) : PlainRule Step fun ev => ev.runCase body := by
  refine .bind (.capture (.block body)) fun outcome => ?_
  match outcome with
  | .error .broken => exact .pure _
  | .ok _ | .error (.returned _) | .error .continued | .error (.thrown _) | .error (.failed _) =>
    exact .release _

/-- What was caught is declared as a variable before the handler runs. -/
theorem plain_guarded (body : Block) (name : String) (handler : Block) :
    PlainRule Step fun ev => ev.guarded body name handler := by
  refine .bind (.capture (.block body)) fun outcome => ?_
  cases outcome with
  | ok v => exact .pure v
  | error x =>
    dsimp only
    cases x.caught? with
    | none => exact .signal x
    | some v => exact .bind (.bindCaught name v) fun _ => .block handler

/-- Every statement is carried out by a rule, one case for each kind of statement. -/
theorem plain_statement (stmt : Stmt) : PlainRule Step fun ev => ev.statement stmt := by
  cases stmt with
  | declare typeName name value =>
    have bound (v : Value) : PlainRule Step
        (fun _ => do Script.declareVariable name (Tag.ofName typeName) v; return v) :=
      .bind (.declare name (Tag.ofName typeName) v) fun _ => .pure v
    cases value with
    | some e => exact .bind (.expr e) bound
    | none => exact bound _
  | classDef decl => exact .bind (.declareClass decl) fun _ => .pure _
  | functionDef decl => exact .bind (plain_declareFunction decl) fun _ => .pure _
  | forEach iterable key value body =>
    exact .bind (.expr iterable) fun source =>
      .bind (plain_forEach source key value body) fun _ => .pure _
  | whileLoop condition body =>
    refine .bind (.repeatWhile ?_) fun _ => .pure _
    exact .bind (.test condition) fun _ => .ite (plain_round body) (.pure false)
  | doWhile body condition =>
    refine .bind (.repeatWhile ?_) fun _ => .pure _
    exact .bind (plain_round body) fun _ => .ite (.test condition) (.pure false)
  | tryCatch body name handler => exact plain_guarded body name handler
  | branch condition consequence alternative =>
    refine .bind (.test condition) fun _ => .ite (.block consequence) ?_
    cases alternative with
    | some body => exact .block body
    | none => exact .pure _
  | select subject cases fallback =>
    refine .bind (.expr subject) fun v => .bind (plain_selectCase v cases) fun found => ?_
    cases found.or fallback with
    | some body => exact plain_runCase body
    | none => exact .pure _
  | raise e => exact .bind (.expr e) fun _ => .signal _
  | returns value =>
    cases value with
    | none => exact .signal _
    | some e => exact .bind (.expr e) fun _ => .signal _
  | breaks => exact .signal _
  | continues => exact .signal _
  | load path => exact .bind (.load path) fun _ => .pure _
  | package name => exact .pure _
  | echo e => exact .bind (.expr e) fun _ => .bind (Script.plain_write _) fun _ => .pure _
  | expr e => exact .expr e

theorem plain_statements (last : Value) (body : Block) :
    PlainRule Step fun ev => ev.statements last body := by
  induction body generalizing last with
  | nil => exact .pure last
  | cons stmt rest ih => exact .bind (plain_statement stmt) ih

theorem plain_topLevel (last : Value) (body : Block) :
    PlainRule Step fun ev => ev.topLevel last body := by
  induction body generalizing last with
  | nil => exact .pure _
  | cons stmt rest ih =>
    refine .ite (ih last) (.bind (.capture (plain_statement stmt)) fun outcome => ?_)
    match outcome with
    | .ok v => exact ih v
    | .error (.returned v) => exact .pure (v, true)
    | .error .broken | .error .continued => exact ih last
    | .error (.thrown _) | .error (.failed _) => exact .fail _

/-- A script declares its functions and classes before its statements run. -/
theorem plain_script (body : Block) : PlainRule Step fun ev => ev.script body :=
  .bind (plain_declareAll body) fun _ => plain_topLevel .nil body

/-- Every job is carried out by a rule. -/
theorem plain_step (job : Job) : PlainRule Step fun ev => ev.step job := by
  cases job with
  | expr e => exact plain_evaluate e
  | block body => exact plain_statements .nil body
  | call callee args => exact plain_callValue callee args
  | load place body =>
    exact .bind (.start place) fun _ => .bind (plain_script body) fun _ => .pure _

theorem plain_program (p : Program) : PlainRule Step fun ev => ev.program p := by
  refine .bind (plain_script p.statements) fun result => .ite (.pure _) (.bind .store fun s => ?_)
  cases (s.classes.findMethod? "Main" "main").filter (·.isInit) with
  | none => exact .pure _
  | some entry =>
    exact .settle (.bind (plain_create "Main" []) fun ref => plain_callMethod entry ref [])

end RouteScript.Evaluator
