import RouteScript.Proofs.ClassTable.Lookup
import RouteScript.Proofs.Eval.Agreement

/-!
# Calls of hosted classes

A script calls the methods of a hosted class by the name of the class. Unless the name has been
given another meaning, such a call makes a new object and goes to the service of the class.
-/

namespace RouteScript

/-- No variable in sight has the name. -/
structure Task.IsFree (word : String) (t : Task) : Prop where
  innermost : Dict.get? word t.scope.innermost.vars = none
  globals : Dict.get? word t.scope.globals.vars = none

namespace Task.IsFree

variable {word : String} {t : Task}

/-- A free word has no value in sight. -/
theorem get?_eq (h : t.IsFree word) : t.scope.get? word = none := by
  rw [Scope.get?_eq_or, h.innermost, h.globals]
  rfl

/-- A word stays free in a new frame. -/
theorem enter (h : t.IsFree word) (this : Option Value) : (t.enter this).IsFree word :=
  ⟨rfl, h.globals⟩

end Task.IsFree

/-- The name stands for a class without members and ancestors that a service carries out. -/
structure Store.Hosts (className : String) (service : Service) (s : Store) : Prop where
  chain : s.classes.chain className = [⟨.bare className, none, true⟩]
  function : Dict.get? className s.functions = none
  service : Dict.get? className s.services = some service

namespace Store.Hosts

variable {className : String} {service : Service} {s : Store}

theorem contains (h : s.Hosts className service) : s.classes.contains className := by
  rw [ClassTable.contains_iff]
  by_contra absent
  have empty : s.classes.chain className = [] := by
    rw [ClassTable.chain, ClassTable.indexOf?_eq_none_iff.mpr absent]
    rfl
  simp [h.chain] at empty

/-- A hosted class is the nearest hosted class of its own chain. -/
theorem hostedAncestor? (h : s.Hosts className service) :
    s.classes.hostedAncestor? className = some className := by
  simp [ClassTable.hostedAncestor?, h.chain, ClassDecl.bare]

/-- All methods of a hosted class are left to the host. -/
theorem resolve? (h : s.Hosts className service) (method : String) :
    s.classes.resolve? className method = some (.hosted method) := by
  simp [ClassTable.resolve?, ClassTable.findMethod?, h.chain, h.hostedAncestor?, ClassDecl.bare,
    ClassDecl.method?]

end Store.Hosts

namespace Evaluator

variable {className : String} {service : Service} {t : Task} {s : Store}

/-- With a level left, a job is carried out by its rule. -/
theorem run_withLevels_succ (host : HostHandler) (levels : Nat) (job : Job) :
    (withLevels host (levels + 1)).run job = (withLevels host levels).step job := rfl

/-- The free name of a hosted class stands for the class. -/
theorem lookup_hosted (hfree : t.IsFree className) (hhosts : s.Hosts className service) :
    lookup className t s = .classRef className := by
  simp [lookup, hfree.get?_eq, hhosts.function, hhosts.contains]

/-- A method of a hosted class is carried out on a new object. -/
theorem callMember_hosted (ev : Evaluator) (hhosts : s.Hosts className service) (method : String)
    (args : List Value) :
    ev.callMember (.classRef className) method args t s =
      service.call ev className (s.newObject className []).1 method args t
        (s.newObject className []).2 := by
  have hmade : ev.newObject className t s =
      .finished (.value (s.newObject className []).1) t (s.newObject className []).2 := by
    rw [newObject_apply ev t hhosts.contains, hhosts.chain]
    rfl
  have hancestor : (s.newObject className []).2.classes.hostedAncestor?
      (s.newObject className []).1.className = some className := hhosts.hostedAncestor?
  have hservice : Dict.get? className (s.newObject className []).2.services = some service :=
    hhosts.service
  simp only [callMember, Script.bind_apply, Script.store, Run.bind, hhosts.resolve?, hmade,
    callMethod, FunctionDecl.hosted, Option.isSome_none, Bool.false_eq_true, if_false, hancestor,
    hservice]

/-- A call by the name of a hosted class evaluates the arguments and then calls the method. -/
theorem expr_hosted_member {host : HostHandler} (levels : Nat) (hfree : t.IsFree className)
    (hhosts : s.Hosts className service) (method : String) (access : Access) (args : List Expr) :
    (withLevels host (levels + 2)).expr (.call (.member (.name className) method access) args) t s =
      ((withLevels host (levels + 1)).exprs args t s).bind fun values t s =>
        (withLevels host (levels + 1)).callMember (.classRef className) method values t s := by
  have hclass : (withLevels host (levels + 1)).expr (.name className) t s =
      .finished (.value (.classRef className)) t s := by
    rw [← lookup_hosted hfree hhosts]
    rfl
  rw [expr, run_withLevels_succ]
  simp only [step, evaluate, call, Script.bind_apply, hclass, Run.bind]

/-- The value of a call of a hosted class. -/
theorem expr_hosted_call {host : HostHandler} {levels : Nat} {args : List Expr}
    {values : List Value} (hfree : t.IsFree className) (hhosts : s.Hosts className service)
    (hargs : (withLevels host (levels + 1)).exprs args t s = .finished (.value values) t s)
    (method : String) (access : Access) :
    (withLevels host (levels + 2)).expr (.call (.member (.name className) method access) args) t s =
      service.call (withLevels host (levels + 1)) className (s.newObject className []).1 method
        values t (s.newObject className []).2 := by
  rw [expr_hosted_member levels hfree hhosts, hargs]
  simp only [Run.bind, callMember_hosted _ hhosts]

end Evaluator

end RouteScript
