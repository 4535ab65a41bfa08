import RouteScript.CommandLine

/-!
# The program

Collects what a command can find, carries the command out and writes what it leaves behind.
-/

namespace RouteScript.Main

def fileNode (bytes : ByteArray) : FileNode :=
  match String.fromUTF8? bytes with
  | some content => .text content
  | none => .binary

/-- The nodes in a directory and in the directories inside it, down to a depth. Directories whose
names start with a dot are left out. -/
def nodesBelow : Nat → String → IO (List (List String × FileNode))
  | 0, _ => return []
  | depth + 1, directory => do
    let real ← IO.FS.realPath directory
    let mut found := [(Path.names real.toString, FileNode.directory)]
    for entry in ← real.readDir do
      let path := entry.path.toString
      if ← entry.path.isDir then
        unless entry.fileName.startsWith "." do
          found := found ++ (← try nodesBelow depth path catch _ => pure [])
      else
        let node ← try some <$> fileNode <$> IO.FS.readBinFile path catch _ => pure none
        found := found ++ (node.map (Path.names path, ·)).toList
    return found

def nodeAt (path : String) : IO (List (List String × FileNode)) :=
  try
    let real ← IO.FS.realPath path
    let bytes ← IO.FS.readBinFile real
    return [(Path.names real.toString, fileNode bytes)]
  catch _ => return []

/-- The files that a command may ask for: those below the working directory, those beside the files
among its arguments, and the global configurations of the directories above. -/
def collectFiles (directory : String) (args : List String) : IO FileTree := do
  let mut nodes ← nodesBelow 8 directory
  for arg in args do
    if !CommandLine.isOption arg then
      let path := Path.join directory arg
      nodes := nodes ++ (← nodeAt path)
      if Path.isAbsolute arg || (Path.parts arg).contains ".." then
        nodes := nodes ++ (← try nodesBelow 8 (CommandLine.directoryOf path) catch _ => pure [])
  for above in Path.ancestors directory do
    nodes := nodes ++ (← nodeAt (Path.join above "config/global.joss"))
  return ⟨nodes⟩

def readsConsole (files : FileTree) : Bool :=
  files.nodes.any fun
    | (_, .text content) => (content.splitOn "cin").length > 1
    | _ => false

partial def readAll (stream : IO.FS.Stream) (found : ByteArray) : IO ByteArray := do
  let chunk ← stream.read 65536
  if chunk.isEmpty then return found else readAll stream (found ++ chunk)

def processVariables : IO (Dict String) := do
  let names := ["ALLOW_SYSTEM_RUN", "NON_INTERACTIVE"]
  let values ← names.mapM fun name => do return (← IO.getEnv name).map (name, ·)
  return values.filterMap id

end RouteScript.Main

open RouteScript in
def main (args : List String) : IO UInt32 := do
  let directory := (← IO.FS.realPath (← IO.currentDir)).toString
  let files ← Main.collectFiles directory args
  let input ←
    if Main.readsConsole files then Main.readAll (← IO.getStdin) .empty else pure .empty
  let exit := CommandLine.carryOut
    ⟨files, Path.names directory, input.toList, ← Main.processVariables⟩ args
  (← IO.getStdout).putStr exit.output
  (← IO.getStderr).putStr exit.errors
  return UInt32.ofNat exit.code
