import RouteScript.Dict

/-!
# Interchange documents

Documents of the JSON format. A number without point and exponent that fits into 64 bits is whole;
every other number is a double.
-/

namespace RouteScript

inductive Json where
  | null
  | bool (value : Bool)
  | int (value : Int64)
  | float (value : Float)
  | text (value : String)
  | array (items : List Json)
  | object (entries : List (String × Json))
  deriving Inhabited

namespace Json

def field? (key : String) : Json → Option Json
  | .object entries => Dict.get? key entries
  | _ => none

end Json

end RouteScript
