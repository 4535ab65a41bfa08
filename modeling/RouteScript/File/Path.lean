import RouteScript.Text.Split

/-!
# Paths

Paths are texts whose parts are separated by slashes. A path that starts with a slash is absolute.
-/

namespace RouteScript.Path

def isAbsolute (path : String) : Bool := path.toList.head? == some '/'

def parts (path : String) : List String := Text.split "/" path

/-- A path seen from another one. An absolute path stays as it is. -/
def join (base path : String) : String :=
  if isAbsolute path then path
  else if base == "" || base.toList.getLast? == some '/' then base ++ path
  else base ++ "/" ++ path

/-- Whether a part behind a slash names something: empty parts and dots do not. -/
def isName (part : String) : Bool := part != "" && part != "."

/-- The parts of a path that name something. In front of a relative path a dot does so too. -/
def names (path : String) : List String :=
  match parts path with
  | [] => []
  | first :: rest => if first == "" then rest.filter isName else first :: rest.filter isName

def ofNames (names : List String) : String := "/" ++ Text.join "/" names

def upToLastName (parts : List String) : List String :=
  (parts.reverse.dropWhile (!isName ·)).reverse

/-- The path without its last name and what follows it. The path in front of that name is kept as
it is written, up to the last name there. -/
def parent? (path : String) : Option String :=
  match parts path with
  | [] => none
  | first :: rest =>
    match upToLastName rest with
    | [] => if first == "" then none else some ""
    | rest =>
      match upToLastName rest.dropLast with
      | [] => some (if first == "" then "/" else first)
      | above => some (Text.join "/" (first :: above))

/-- A path, its parent, the parent of that and so on, at most `n` of them. -/
def ancestorsWithin : Nat → String → List String
  | 0, path => [path]
  | n + 1, path => path :: (parent? path).elim [] (ancestorsWithin n)

def ancestors (path : String) : List String := ancestorsWithin (names path).length path

/-- Whether the last name of a path has an extension: a dot that is not its first character. -/
def hasExtension (path : String) : Bool :=
  match (names path).getLast? with
  | none => false
  | some name => name != ".." && name.toList.tail.contains '.'

end RouteScript.Path
