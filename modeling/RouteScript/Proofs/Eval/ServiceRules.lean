import RouteScript.Proofs.Eval.Rule

/-!
# Built-in functions and services are rules

What a service does with a call back is no more than what the call itself does.
-/

namespace RouteScript

open Store (Step)

theorem Script.plain_write (text : String) : PlainRule Step fun _ => Script.write text :=
  .modifyStore fun _ => .write text

theorem Script.plain_setField (ref : ObjectRef) (name : String) (value : Value) :
    PlainRule Step fun _ => Script.modifyStore (·.setField ref name value) :=
  .modifyStore fun _ => .fields ref _

/-- Sending waits twice: until the channel takes the value and, without a buffer, until it is
received. -/
theorem Script.plain_send (channel : Nat) (value : Value) :
    PlainRule Step fun _ => Script.send channel value :=
  .bind (.request _) fun reply => .bind (.ofExcept reply) fun _ => .request _

theorem Script.plain_spawn (work : Work) : PlainRule Step fun _ => Script.spawn work :=
  .bind .task fun t => .update fun _ => .spawn t.fork work

/-! ## Built-in functions -/

namespace Builtin

theorem plain_printLines (values : List Value) : PlainRule Step fun _ => printLines values := by
  induction values with
  | nil => exact .pure ()
  | cons v rest ih => exact .bind (Script.plain_write _) fun _ => ih

/-- Waiting for a future is a request; other values are passed on. -/
theorem plain_awaitValue (v : Value) : PlainRule Step fun _ => awaitValue v := by
  cases v with
  | future id =>
    refine .bind (.request (.await id)) fun outcome => ?_
    match outcome with
    | Except.ok v | Except.error (.returned v) => exact .pure v
    | Except.error .broken | Except.error .continued => exact .pure _
    | Except.error (.thrown _) | Except.error (.failed _) => exact .signal _
  | _ => exact .pure _

theorem plain_asyncValue (v : Value) : PlainRule Step fun _ => asyncValue v :=
  .ite (Script.plain_spawn _) (.bind (.update fun _ => .future _) fun _ => .pure _)

theorem plain_encode (v : Value) : PlainRule Step fun _ => encode v :=
  .bind .store fun _ => .ite (.pure _) .starve

/-- Every builtin is a rule, one case for each of them. -/
theorem plain_apply (b : Builtin) (args : List Value) : PlainRule Step fun _ => b.apply args := by
  cases b with
  | print | echo => exact .bind (plain_printLines args) fun _ => .pure _
  | printf =>
    exact .bind (.ofExcept _) fun _ => .bind (Script.plain_write _) fun _ => .pure _
  | env =>
    refine .bind (.ofExcept _) fun name => .bind .store fun s => ?_
    split
    · exact .pure _
    · exact .pure _
  | len | count => exact .bind .store fun _ => .pure _
  | jsonEncode => exact plain_encode _
  | keys | values | explode | implode | append | merge | jsonDecode => exact .ofExcept _
  | last | jsonVerify | str | int | float | typeOf => exact .pure _
  | fileGetContents =>
    exact .bind (.ofExcept _) fun _ => .bind .task fun _ => .bind .store fun _ => .ofExcept _
  | async => exact plain_asyncValue _
  | await => exact plain_awaitValue _
  | makeChan => exact .bind (.ofExcept _) fun capacity => .update fun _ => .channel capacity
  | send => exact .bind (.ofExcept _) fun _ => .bind (Script.plain_send _ _) fun _ => .pure _
  | recv => exact .bind (.ofExcept _) fun id => .bind (.request (.take id)) fun _ => .pure _
  | close =>
    refine .bind (.ofExcept _) fun id => .bind .store fun s => ?_
    split
    · exact .pure _
    · exact .bind (.ofExcept _) fun closed =>
        .bind (.modifyStore fun _ => .close id closed) fun _ => .pure _

theorem plain_call (b : Builtin) (args : List Value) : PlainRule Step fun _ => b.call args :=
  .ite (plain_apply b args) (.fail _)

end Builtin

/-! ## Services -/

namespace Service

theorem plain_setElements (ref : ObjectRef) (items : List Value) :
    PlainRule Step fun _ => setElements ref items :=
  Script.plain_setField ref _ _

/-- A stack is an object whose elements are a field. -/
theorem plain_onStack (ref : ObjectRef) (method : String) (args : List Value) :
    PlainRule Step fun _ => onStack ref method args := by
  refine .bind .store fun s => ?_
  dsimp only
  split
  · exact .bind (plain_setElements ref _) fun _ => .pure _
  · exact .bind (.ofExcept _) fun _ => .bind (plain_setElements ref _) fun _ => .pure _
  · exact .bind (plain_setElements ref _) fun _ => .pure _
  · exact .pure _
  · exact .pure _
  · exact .pure _
  · exact .ofExcept _

theorem plain_onQueue (ref : ObjectRef) (method : String) (args : List Value) :
    PlainRule Step fun _ => onQueue ref method args := by
  refine .bind .store fun s => ?_
  dsimp only
  split
  · exact .bind (plain_setElements ref _) fun _ => .pure _
  · exact .bind (.ofExcept _) fun _ => .bind (plain_setElements ref _) fun _ => .pure _
  · split
    · exact .pure _
    · exact .bind (plain_setElements ref _) fun _ => .pure _
  · exact .pure _
  · exact .pure _
  · exact .pure _
  · exact .ofExcept _

/-- Only a random number needs the store, to ask the machine. -/
theorem plain_math (method : String) (args : List Value) :
    PlainRule Step fun _ => Math.call method args := by
  unfold Math.call
  dsimp only
  split
  · exact .pure _
  · exact .bind (.ofExcept _) fun _ => .update fun _ => .ask _
  all_goals exact .ofExcept _

theorem plain_system (method : String) (args : List Value) :
    PlainRule Step fun _ => System.call method args := by
  unfold System.call
  dsimp only
  split
  · exact .pure _
  · exact .bind (.ofExcept _) fun _ => .bind .store fun _ => .pure _
  · exact .bind (.ofExcept _) fun _ => .bind (Script.plain_write _) fun _ => .pure _
  · exact .bind (.ofExcept _) fun _ => .bind .store fun _ =>
      .ite (.bind (.ofExcept _) fun _ => .update fun _ => .ask _) (.pure _)
  · exact .ofExcept _

theorem plain_log (method : String) : PlainRule Step fun _ => System.log method :=
  .ite (.pure _) (.ofExcept _)

theorem plain_onRequest (method : String) (args : List Value) :
    PlainRule Step fun _ => onRequest method args := by
  refine .bind .store fun s => .bind .task fun t => ?_
  dsimp only
  split
  · exact .pure _
  · exact .bind (.ofExcept _) fun _ => .pure _
  · exact .bind (.ofExcept _) fun _ => .pure _
  · exact .pure _
  · exact .ofExcept _

/-- A session is looked up among the globals and kept in the store. -/
theorem plain_onSession (method : String) (args : List Value) :
    PlainRule Step fun _ => onSession method args := by
  refine .ite (.pure _) (.bind .task fun t => ?_)
  split
  · exact .pure _
  · refine .bind .store fun s => ?_
    split
    · exact .bind (.ofExcept _) fun _ => .pure _
    · exact .bind (.ofExcept _) fun _ => .bind (.ofExcept _) fun _ =>
        .bind (Script.plain_setField _ _ _) fun _ => .pure _
    · exact .bind (.ofExcept _) fun _ => .pure _
    · exact .bind (.ofExcept _) fun _ =>
        .bind (.modifyStore fun _ => .fields _ _) fun _ => .pure _
    · exact .pure _
    · exact .ofExcept _

theorem plain_newRedirect (url : Store → String) (flash : Dict Value) :
    PlainRule Step fun _ => Script.update fun s => newRedirect (url s) flash s :=
  .update fun _ => .object "RedirectResponse" _

/-- A redirect back reads its address from the request. -/
theorem plain_redirectBack : PlainRule Step fun _ => redirectBack :=
  .bind .task fun _ => plain_newRedirect _ _

theorem plain_onResponse (method : String) (args : List Value) :
    PlainRule Step fun _ => onResponse method args := by
  unfold onResponse
  dsimp only
  split
  · exact .pure _
  · exact .bind (.ofExcept _) fun _ => .pure _
  · exact .bind (.ofExcept _) fun _ =>
      .ite (.bind .store fun _ => .bind (.ofExcept _) fun _ => .pure _) (.pure _)
  · exact .bind (.ofExcept _) fun _ => plain_newRedirect _ _
  · exact plain_redirectBack
  · exact .ofExcept _

theorem plain_onRedirect (method : String) (args : List Value) :
    PlainRule Step fun _ => onRedirect method args := by
  unfold onRedirect
  dsimp only
  split
  · exact .pure _
  · exact .bind (.ofExcept _) fun _ => plain_newRedirect _ _
  · exact plain_redirectBack
  · exact .ofExcept _

theorem plain_addTo (m : Method) (bucket : String) (ref : ObjectRef) (args : List Value) :
    PlainRule Step fun _ => addTo m bucket ref args :=
  .bind (.ofExcept _) fun _ => .bind (.ofExcept _) fun _ => .bind .store fun _ =>
    .bind (Script.plain_setField _ _ _) fun _ => .pure _

theorem plain_onRedirectResponse (ref : ObjectRef) (method : String) (args : List Value) :
    PlainRule Step fun _ => onRedirectResponse ref method args := by
  unfold onRedirectResponse
  dsimp only
  split
  · exact .pure _
  · exact plain_addTo _ _ _ _
  · exact plain_addTo _ _ _ _
  · exact .ofExcept _

theorem plain_addRoute (verb path : String) (handler : Value) :
    PlainRule Step fun _ => addRoute verb path handler :=
  .modifyStore fun _ => .route verb path handler

theorem plain_addRoutes (path : String) (routes : List (String × Value)) :
    PlainRule Step fun _ => addRoutes path routes := by
  induction routes with
  | nil => exact .pure ()
  | cons route rest ih => exact .bind (plain_addRoute _ _ _) fun _ => ih

theorem plain_pushMiddleware (name : String) : PlainRule Step fun _ => pushMiddleware name :=
  .modifyStore fun _ => .pushMiddleware name

theorem plain_popMiddleware : PlainRule Step fun _ => popMiddleware :=
  .modifyStore fun _ => .popMiddleware

theorem plain_invoke (callee : Value) (args : List Value) :
    PlainRule Step fun ev => ev.invoke callee args :=
  .settle (.run _)

/-- A group calls its body between two changes of the middleware. -/
theorem plain_group (args : List Value) :
    PlainRule Step fun ev => onRouter ev.invoke "group" args := by
  refine .bind (.ofExcept _) fun name => .bind (.ofExcept _) fun body => .ite ?_ (.ofExcept _)
  refine .bind (plain_pushMiddleware name) fun _ => .bind (.capture (plain_invoke body [])) ?_
  exact fun outcome => .bind plain_popMiddleware fun _ => .bind (.release outcome) fun _ => .pure _

/-- No other method of the router calls anything. -/
theorem onRouter_of_ne_group {method : String} (h : method ≠ "group") (invoke invoke' : Invoke)
    (args : List Value) : onRouter invoke method args = onRouter invoke' method args := by
  unfold onRouter
  dsimp only
  split <;> first | rfl | contradiction

theorem plain_onRouter (method : String) (args : List Value) :
    PlainRule Step fun ev => onRouter ev.invoke method args := by
  by_cases h : method = "group"
  · subst h
    exact plain_group args
  · simp only [onRouter_of_ne_group h _ fun _ _ => Script.starve]
    unfold onRouter
    dsimp only
    split
    · exact .pure _
    -- the methods that add one route
    iterate 4
      exact .bind (.ofExcept _) fun _ => .bind (.ofExcept _) fun _ =>
        .bind (plain_addRoute _ _ _) fun _ => .pure _
    · exact .bind (.ofExcept _) fun _ => .bind (.ofExcept _) fun _ =>
        .bind (plain_addRoutes _ _) fun _ => .pure _
    · exact .bind (.ofExcept _) fun _ => .bind (.ofExcept _) fun _ => .bind (.ofExcept _) fun _ =>
        .bind (.ofExcept _) fun _ => .bind (plain_addRoutes _ _) fun _ => .pure _
    · exact .bind (.ofExcept _) fun _ => .bind (plain_pushMiddleware _) fun _ => .pure _
    · exact .bind plain_popMiddleware fun _ => .pure _
    · contradiction
    · exact .ofExcept _

/-- Every service is a rule that writes no globals directly. -/
theorem plain_call (service : Service) (className : String) (ref : ObjectRef) (method : String)
    (args : List Value) : PlainRule Step fun ev => service.call ev className ref method args := by
  cases service with
  | stack => exact plain_onStack ref method args
  | queue => exact plain_onQueue ref method args
  | math => exact plain_math method args
  | system => exact plain_system method args
  | log => exact plain_log method
  | request => exact plain_onRequest method args
  | session => exact plain_onSession method args
  | response => exact plain_onResponse method args
  | redirect => exact plain_onRedirect method args
  | redirectResponse => exact plain_onRedirectResponse ref method args
  | router => exact plain_onRouter method args
  | external => exact .settle (.host className ref method args)

end Service

end RouteScript
