import RouteScript.Fault

/-!
# Signals

A statement or expression that does not run to its end gives a signal instead of a value.
-/

namespace RouteScript

inductive Signal where
  | returned (value : Value)
  | broken
  | continued
  | thrown (value : Value)
  | failed (fault : Fault)

namespace Signal

def toFault : Signal → Fault
  | .returned _ => .invalid .returnOutside
  | .broken => .invalid .breakOutside
  | .continued => .invalid .continueOutside
  | .thrown value => .uncaught value.display
  | .failed fault => fault

/-- What a `catch` binds to its variable. Signals of loops and calls are not caught. -/
def caught? : Signal → Option Value
  | .thrown value => some value
  | .failed fault => some (.text fault.message)
  | _ => none

end Signal

end RouteScript
