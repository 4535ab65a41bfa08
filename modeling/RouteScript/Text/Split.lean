/-!
# Cutting texts apart

Texts are cut at every occurrence of a delimiter, scanning from the left without overlaps, or at
the first occurrence of one character. The pieces joined with the delimiter give the text back.
-/

namespace RouteScript.Text

/-- Scan `l` for the delimiter `d`; `skip` counts the characters of a found delimiter that are
still to be passed over, and `piece` holds the current piece backwards. -/
def splitFrom (d : List Char) : Nat → List Char → List Char → List (List Char)
  | _, piece, [] => [piece.reverse]
  | skip + 1, piece, _ :: rest => splitFrom d skip piece rest
  | 0, piece, c :: rest =>
    if d.isPrefixOf (c :: rest) then piece.reverse :: splitFrom d (d.length - 1) [] rest
    else splitFrom d 0 (c :: piece) rest

def splitList (d l : List Char) : List (List Char) :=
  splitFrom d 0 [] l

def split (delimiter s : String) : List String :=
  (splitList delimiter.toList s.toList).map String.ofList

/-- The parts before and after the first `c`, if there is one. -/
def splitFirst (c : Char) (l : List Char) : Option (List Char × List Char) :=
  match l.dropWhile (· != c) with
  | [] => none
  | _ :: after => some (l.takeWhile (· != c), after)

def joinList (glue : List Char) : List (List Char) → List Char
  | [] => []
  | [piece] => piece
  | piece :: rest => piece ++ glue ++ joinList glue rest

def join (glue : String) : List String → String
  | [] => ""
  | [piece] => piece
  | piece :: rest => piece ++ glue ++ join glue rest

end RouteScript.Text
