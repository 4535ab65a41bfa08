import RouteScript.Fault

/-!
# Operators

What the operators between two values mean. Whole numbers wrap around at 64 bits, division always
gives a float, and `+` joins texts unless both sides are numbers.
-/

namespace RouteScript.Value

def compare? : Value → Value → Option Ordering
  | .int a, .int b => some (compare a b)
  | .text a, .text b => some (compare a b)
  | a, b => do
    let x ← a.number?
    let y ← b.number?
    if x < y then some .lt else if x == y then some .eq else if y < x then some .gt else none

def divide (x y : Float) : Except Fault Value :=
  if y == 0 then .error .divisionByZero else .ok (.float (x / y))

def remainder (x y : Int64) : Except Fault Value :=
  if y = 0 then .error .divisionByZero else .ok (.int (x % y))

/-- How far a number is shifted. The amount is cut to 32 bits, and the last six of them count. -/
def shiftAmount (n : Int64) : Int64 := (n.toUInt64.toUInt32 &&& 63).toUInt64.toInt64

def wholeOp (op : BinaryOp) (a b : Int64) : Except Fault Value :=
  match op with
  | .add => .ok (.int (a + b))
  | .subtract => .ok (.int (a - b))
  | .multiply => .ok (.int (a * b))
  | .divide => divide (Decimal.ofInt64 a) (Decimal.ofInt64 b)
  | .modulo => remainder a b
  | .shiftLeft => .ok (.int (a <<< shiftAmount b))
  | .shiftRight => .ok (.int (a >>> shiftAmount b))
  | _ => .error (.invalid (.operands op .int .int))

/-- The operators between two numbers of which one is a float. Remainders drop the fractions
first. -/
def floatOp (op : BinaryOp) (x y : Float) (mismatch : Fault) : Except Fault Value :=
  match op with
  | .add => .ok (.float (x + y))
  | .subtract => .ok (.float (x - y))
  | .multiply => .ok (.float (x * y))
  | .divide => divide x y
  | .modulo => remainder x.toInt64 y.toInt64
  | _ => .error mismatch

def arithmetic (op : BinaryOp) (left right : Value) : Except Fault Value :=
  let mismatch := Fault.invalid (.operands op left.kind right.kind)
  match left, right with
  | .int a, .int b => wholeOp op a b
  | _, _ =>
    match left.number?, right.number? with
    | some x, some y => floatOp op x y mismatch
    | _, _ => if op = .add then .ok (.text (left.display ++ right.display)) else .error mismatch

def ordered (op : BinaryOp) (holds : Ordering → Bool) (left right : Value) : Except Fault Value :=
  match left.compare? right with
  | some o => .ok (.bool (holds o))
  | none => .error (.invalid (.comparison left.kind op right.kind))

def binary (op : BinaryOp) (left right : Value) : Except Fault Value :=
  match op with
  | .equal => .ok (.bool (left.looseEq right))
  | .notEqual => .ok (.bool (!left.looseEq right))
  | .less => left.ordered op (· == .lt) right
  | .greater => left.ordered op (· == .gt) right
  | .lessEqual => left.ordered op (· != .gt) right
  | .greaterEqual => left.ordered op (· != .lt) right
  | _ => left.arithmetic op right

def unary : UnaryOp → Value → Except Fault Value
  | .not, v => .ok (.bool !v.isTruthy)
  | .negate, .int n => .ok (.int (-n))
  | .negate, .float x => .ok (.float (-x))
  | .negate, v => .error (.invalid (.negation v.kind))

def stepped : StepOp → Value → Except Fault Value
  | .increment, .int n => .ok (.int (n + 1))
  | .decrement, .int n => .ok (.int (n - 1))
  | .increment, .float x => .ok (.float (x + 1))
  | .decrement, .float x => .ok (.float (x - 1))
  | .increment, .nil => .ok (.int 1)
  | .decrement, .nil => .ok (.int (-1))
  | op, v => .error (.invalid (.stepping op v.kind))

end RouteScript.Value
