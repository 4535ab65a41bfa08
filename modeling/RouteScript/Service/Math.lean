import RouteScript.Service.Argument
import RouteScript.Task.Script

/-!
# Mathematics

Rounding, extremes and random numbers. Rounding leaves whole numbers alone.
-/

namespace RouteScript.Service.Math

def rounded (m : Method) (round : Float → Float) (args : List Value) : Except Fault Value := do
  match ← m.number args 0 with
  | .float x => .ok (.float (round x))
  | v => .ok v

def absolute (m : Method) (args : List Value) : Except Fault Value := do
  match ← m.number args 0 with
  | .int n => .ok (.int (if n < 0 then -n else n))
  | .float x => .ok (.float x.abs)
  | _ => .ok .nil

def best (m : Method) (beats : Float → Float → Bool) (index : Nat) (current : Value) :
    List Value → Except Fault Value
  | [] => .ok current
  | v :: rest =>
    match v.number?, current.number? with
    | some x, some y => best m beats (index + 1) (if beats x y then v else current) rest
    | _, _ => m.refuse (.notNumber index v.kind)

def extreme (m : Method) (beats : Float → Float → Bool) (args : List Value) :
    Except Fault Value :=
  let candidates := match args with
    | [.array items] => items
    | _ => args
  match candidates with
  | [] => m.refuse .noNumbers
  | v :: rest =>
    if v.isNumeric then best m beats 1 v rest else m.refuse (.notNumber 0 v.kind)

def bounds (m : Method) (args : List Value) : Except Fault (Int64 × Int64) := do
  let least ← m.number args 0
  let most ← m.number args 1
  match least, most with
  | .int least, .int most =>
    if most < least then m.refuse (.boundsReversed least most) else .ok (least, most)
  | _, _ => m.refuse .boundsNotWhole

def random (least most : Int64) (m : Machine) (turn : Nat) : Value :=
  let count := (most.toInt - least.toInt + 1).toNat
  .int (Int64.ofInt (least.toInt + (m.draw turn % count : Nat)))

def call (method : String) (args : List Value) : Script Value :=
  let m : Method := ⟨"Math", method⟩
  match method with
  | "constructor" => return .nil
  | "random" => do
    let (least, most) ← bounds m args
    Script.update (Store.ask (random least most))
  | "floor" => rounded m Float.floor args
  | "ceil" => rounded m Float.ceil args
  | "round" => rounded m Float.round args
  | "abs" => absolute m args
  | "max" => extreme m (fun x y => decide (y < x)) args
  | "min" => extreme m (fun x y => decide (x < y)) args
  | _ => m.unknown

end RouteScript.Service.Math
