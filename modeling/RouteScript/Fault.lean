import RouteScript.Syntax.Diagnostic
import RouteScript.Value.Display

/-!
# Faults

Everything that can go wrong while a script runs, by cause. A fault has a message for people, a
category and a code that hosts can match on.
-/

namespace RouteScript

inductive FileProblem where
  | missing | directory | notDirectory | encoding | longName | zeroInName
  deriving DecidableEq

def FileProblem.message : FileProblem → String
  | .missing => "No such file or directory (os error 2)"
  | .directory => "Is a directory (os error 21)"
  | .notDirectory => "Not a directory (os error 20)"
  | .encoding => "stream did not contain valid UTF-8"
  | .longName => "File name too long (os error 36)"
  | .zeroInName => "file name contained an unexpected NUL byte"

inductive LoadProblem where
  | notFound
  | unreadable (problem : FileProblem)
  | malformed (diagnostics : List Diagnostic)

def LoadProblem.message : LoadProblem → String
  | .notFound => "file not found"
  | .unreadable problem => problem.message
  | .malformed diagnostics => Diagnostic.messages diagnostics

inductive Wanted where
  | string | channel | mapOrArray | array
  deriving DecidableEq

def Wanted.describe : Wanted → String
  | .string => "string"
  | .channel => "channel"
  | .mapOrArray => "map or array"
  | .array => "array"

inductive Misstep where
  | emptyIndex
  | negation (kind : Kind)
  | stepping (op : StepOp) (kind : Kind)
  | readMember (member : String) (kind : Kind)
  | writeMember (member : String) (kind : Kind)
  | assignmentTarget
  | appendToMap
  | appendToObject
  | indexAssignment (kind : Kind)
  | comparison (left : Kind) (op : BinaryOp) (right : Kind)
  | operands (op : BinaryOp) (left right : Kind)
  | methodOnNil (method : String)
  | noBody (function : String)
  | iteration (kind : Kind)
  | returnOutside
  | breakOutside
  | continueOutside
  | asyncArguments (count : Nat)
  | argumentCount (function : Builtin) (count : Nat)
  | argumentKind (role : String) (wanted : Wanted) (found : Kind)
  | emptyDelimiter
  | implodeArguments
  | mergeArguments (left right : Kind)
  | negativeCapacity (capacity : Int64)
  | capacityKind (kind : Kind)
  | closedTwice
  | noRoute (method path : String)
  | malformedHandler (handler : String)
  | controllerValue (controller : String) (kind : Kind)

def Misstep.message : Misstep → String
  | .emptyIndex => "cannot read from an empty index []"
  | .negation kind => "cannot negate " ++ kind.name
  | .stepping op kind => "cannot apply " ++ op.symbol ++ " to " ++ kind.name
  | .readMember member kind => "cannot read member '" ++ member ++ "' of " ++ kind.name
  | .writeMember member kind => "cannot assign member '" ++ member ++ "' on " ++ kind.name
  | .assignmentTarget => "invalid assignment target"
  | .appendToMap => "cannot append to a map without a key"
  | .appendToObject => "cannot append to an object"
  | .indexAssignment kind => "cannot index-assign into " ++ kind.name
  | .comparison left op right =>
    "cannot compare " ++ left.name ++ " " ++ op.symbol ++ " " ++ right.name
  | .operands op left right =>
    "unsupported operands for " ++ op.symbol ++ ": " ++ left.name ++ " and " ++ right.name
  | .methodOnNil method => "call to method '" ++ method ++ "' on nil"
  | .noBody function => "'" ++ function ++ "' has no body to execute"
  | .iteration kind => "cannot iterate over " ++ kind.name
  | .returnOutside => "return outside of a call"
  | .breakOutside => "break outside of a loop"
  | .continueOutside => "continue outside of a loop"
  | .asyncArguments count => "async expects 1 argument, got " ++ toString count
  | .argumentCount function count =>
    function.name ++ " expects " ++ function.arity.describe ++ " argument(s), got " ++
      toString count
  | .argumentKind role wanted found =>
    role ++ " expects " ++ wanted.describe ++ ", got " ++ found.name
  | .emptyDelimiter => "explode delimiter is empty"
  | .implodeArguments => "implode expects a string glue and an array"
  | .mergeArguments left right =>
    "merge expects two arrays or two maps, got " ++ left.name ++ " and " ++ right.name
  | .negativeCapacity capacity =>
    "channel capacity must be non-negative, got " ++ toString capacity
  | .capacityKind kind => "make_chan expects int capacity, got " ++ kind.name
  | .closedTwice => "close of closed channel"
  | .noRoute method path => "route not found: " ++ method ++ " " ++ path
  | .malformedHandler handler => "malformed route handler '" ++ handler ++ "'"
  | .controllerValue controller kind =>
    "controller '" ++ controller ++ "' produced " ++ kind.name

inductive IndexProblem where
  | unindexable (container index : Kind)
  | outOfRange (index : Int64) (length : Nat)
  | notWhole (index : Kind)

def IndexProblem.message : IndexProblem → String
  | .unindexable container index => "cannot index " ++ container.name ++ " with " ++ index.name
  | .outOfRange index length =>
    "index " ++ toString index ++ " out of range for array of length " ++ toString length
  | .notWhole index => "array index must be int, got " ++ index.name

/-- Arguments that a service method cannot work with. Arguments are counted from zero here and from
one in messages. -/
inductive ArgumentProblem where
  | missing (index : Nat)
  | notString (index : Nat) (found : Kind)
  | notNumber (index : Nat) (found : Kind)
  | notMap (index : Nat) (found : Kind)
  | boundsNotWhole
  | boundsReversed (least most : Int64)
  | noNumbers
  | programArguments (found : Kind)
  | routeHandler (found : String)
  | handlerTarget (handler : String)
  | groupBody (found : Kind)
  | rejected (reason : String)

def ArgumentProblem.message : ArgumentProblem → String
  | .missing index => "missing argument " ++ toString (index + 1)
  | .notString index found =>
    "argument " ++ toString (index + 1) ++ " must be a string, got " ++ found.name
  | .notNumber index found =>
    "argument " ++ toString (index + 1) ++ " must be a number, got " ++ found.name
  | .notMap index found =>
    "argument " ++ toString (index + 1) ++ " must be a map, got " ++ found.name
  | .boundsNotWhole => "bounds must be integers"
  | .boundsReversed least most =>
    "min " ++ toString least ++ " is greater than max " ++ toString most
  | .noNumbers => "expects at least one number"
  | .programArguments found => "arguments must be an array, got " ++ found.name
  | .routeHandler found =>
    "handler must be \"Controller@method\" or a function, got " ++ found
  | .handlerTarget handler => "handler '" ++ handler ++ "' must contain '@'"
  | .groupBody found => "group body must be a function, got " ++ found.name
  | .rejected reason => reason

inductive Fault where
  | typeMismatch (name expected found : String)
  | undefinedFunction (name : String)
  | undefinedMethod (className method : String)
  | undefinedClass (name : String)
  | notCallable (kind : Kind)
  | invalid (misstep : Misstep)
  | divisionByZero
  | index (problem : IndexProblem)
  | argument (service method : String) (problem : ArgumentProblem)
  | missingService (name : String)
  | inheritanceCycle (className : String)
  | channelClosed
  | load (path : String) (problem : LoadProblem)
  | callDepth (limit : Nat)
  | uncaught (text : String)
  | file (problem : FileProblem)

inductive Code where
  | malformed | loading | typing | operation | running
  deriving DecidableEq

def Code.name : Code → String
  | .malformed => "E001"
  | .loading => "E002"
  | .typing => "E003"
  | .operation => "E004"
  | .running => "E005"

namespace Fault

def message : Fault → String
  | .typeMismatch name expected found =>
    "type mismatch: $" ++ name ++ " is declared as " ++ expected ++ " but got " ++ found
  | .undefinedFunction name => "undefined function '" ++ name ++ "'"
  | .undefinedMethod className method =>
    "method '" ++ method ++ "' not found on class " ++ className
  | .undefinedClass name => "class '" ++ name ++ "' is not defined"
  | .notCallable kind => "value of type " ++ kind.name ++ " is not callable"
  | .invalid misstep => "invalid operation: " ++ misstep.message
  | .divisionByZero => "division by zero"
  | .index problem => "index error: " ++ problem.message
  | .argument service method problem => service ++ "::" ++ method ++ ": " ++ problem.message
  | .missingService name => "no native handler registered for " ++ name
  | .inheritanceCycle className => "inheritance cycle detected at class " ++ className
  | .channelClosed => "send on closed channel"
  | .load path problem => "import of '" ++ path ++ "' failed: " ++ problem.message
  | .callDepth limit => "maximum call depth of " ++ toString limit ++ " exceeded"
  | .uncaught text => "uncaught exception: " ++ text
  | .file problem => "io error: " ++ problem.message

def code : Fault → Code
  | .load .. => .loading
  | .typeMismatch .. => .typing
  | .undefinedFunction _ | .undefinedMethod .. | .undefinedClass _ | .notCallable _ | .invalid _
  | .divisionByZero | .index _ => .operation
  | _ => .running

end Fault

end RouteScript
