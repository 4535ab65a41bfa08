import RouteScript.Dict
import RouteScript.Text.Blank
import RouteScript.Text.Split

/-!
# Environment files

An environment file has one entry `KEY=value` on a line. Blanks around keys and values do not count,
and one pair of quotes around a value is taken off. Lines that start with `#` and lines without `=`
are passed over. The last entry for a key counts.
-/

namespace RouteScript.EnvFile

def unquoteWith? (q : Char) (l : List Char) : Option (List Char) :=
  match l with
  | c :: rest => if c = q ∧ rest.getLast? = some q then some rest.dropLast else none
  | [] => none

def unquote (l : List Char) : List Char :=
  ((unquoteWith? '"' l).or (unquoteWith? '\'' l)).getD l

def entry? (line : List Char) : Option (String × String) :=
  let line := Text.trimList line
  if line.head? = some '#' then none
  else (Text.splitFirst '=' line).map fun (key, value) =>
    (String.ofList (Text.trimList key), String.ofList (unquote (Text.trimList value)))

def read (text : String) : Dict String :=
  Dict.ofList ((Text.splitList ['\n'] text.toList).filterMap entry?)

end RouteScript.EnvFile
