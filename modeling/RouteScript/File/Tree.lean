import RouteScript.Fault
import RouteScript.File.Path

/-!
# File trees

The files that scripts can see. Every file has one place, given by the names on the way to it from
the root; paths that go through `.` and `..` are resolved to such a place step by step.
-/

namespace RouteScript

inductive FileNode where
  | directory
  | text (content : String)
  /-- A file whose bytes are not the encoding of a text. -/
  | binary

/-- A file tree, given by the places that are not implied by others. -/
structure FileTree where
  nodes : List (List String × FileNode) := []

namespace FileTree

/-- What stands at a place. Everything on the way to a node is a directory, and so is the root. -/
def node? (place : List String) (t : FileTree) : Option FileNode :=
  match t.nodes.find? (·.1 == place) with
  | some (_, node) => some node
  | none =>
    if place.isEmpty || t.nodes.any (fun (other, _) => place.isPrefixOf other) then some .directory
    else none

def maxNameSize : Nat := 255

def maxPathSize : Nat := 4095

/-- Follow the parts of a path from a place. Every part must start from a directory. -/
def follow (t : FileTree) (place : List String) : List String → Except FileProblem (List String)
  | [] => if (t.node? place).isSome then .ok place else .error .missing
  | part :: rest =>
    match t.node? place with
    | none => .error .missing
    | some .directory =>
      if part == "" || part == "." then follow t place rest
      else if part == ".." then follow t place.dropLast rest
      else if maxNameSize < part.utf8ByteSize then .error .longName
      else follow t (place ++ [part]) rest
    | some _ => .error .notDirectory

def resolve (t : FileTree) (directory : List String) (path : String) :
    Except FileProblem (List String) :=
  if path == "" then .error .missing
  else if path.toList.contains (Char.ofNat 0) then .error .zeroInName
  else if maxPathSize < path.utf8ByteSize then .error .longName
  else t.follow (if Path.isAbsolute path then [] else directory) (Path.parts path)

def isFile (t : FileTree) (directory : List String) (path : String) : Bool :=
  match t.resolve directory path with
  | .error _ => false
  | .ok place =>
    match t.node? place with
    | some (.text _) | some .binary => true
    | _ => false

def textAt (t : FileTree) (place : List String) : Except FileProblem String :=
  match t.node? place with
  | some (.text content) => .ok content
  | some .binary => .error .encoding
  | some .directory => .error .directory
  | none => .error .missing

def read (t : FileTree) (directory : List String) (path : String) : Except FileProblem String := do
  t.textAt (← t.resolve directory path)

end FileTree

end RouteScript
