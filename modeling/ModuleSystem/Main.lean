import ModuleSystem.CommandLine.Run

/-! The program: takes the files that a request is about from the disk, runs the request on them,
and writes back what it changed. -/

namespace ModuleSystem

def placeOf (path : String) : Place := (Path.components path).filter (· ≠ ".")

/-- Enters a node, and the directories above it. -/
def enterNode (tree : FileTree) (place : Place) (node : FileNode) : FileTree :=
  let above := (List.range (place.length - 1)).map fun n => place.take (n + 1)
  let tree := above.foldl (fun t p => if (t.node? p).isSome then t else t.put p .dir) tree
  if place.isEmpty then tree else tree.put place node

/-- Takes what is at an absolute path, with all that lies below a directory. A link is taken as a
link to what it leads to. -/
partial def capture (path : String) (tree : FileTree) : IO FileTree := do
  let place := placeOf path
  let here := (← IO.currentDir) / path
  if (tree.node? place).any (· ≠ .dir) || !(← here.pathExists) then return tree
  let target := (← IO.FS.realPath here).toString
  if target ≠ path then
    let tree := enterNode tree place (.link target)
    if ← here.isDir then return tree else capture target tree
  else if ← here.isDir then
    let mut tree := enterNode tree place .dir
    for entry in ← here.readDir do
      tree ← capture (Path.join path entry.fileName) tree
    return tree
  else return enterNode tree place (.file (← IO.FS.readBinFile here).toList)

def captureAll (home : String) (paths : List String) (tree : FileTree) : IO FileTree :=
  paths.foldlM (fun tree path => capture (Path.join home path) tree) tree

/-- Writes the nodes that were not there before. -/
def writeBack (before after : FileTree) : IO Unit := do
  for (place, node) in after.entries.reverse do
    let path := "/" ++ String.intercalate "/" place
    if before.node? place ≠ some node then
      match node with
      | .dir => IO.FS.createDirAll path
      | .file bytes =>
        IO.FS.writeBinFile (path ++ ".new") ⟨bytes.toArray⟩
        IO.FS.rename (path ++ ".new") path
      | .link _ => pure ()

def hexByte (b : UInt8) : String :=
  String.ofList [Nat.digitChar (b.toNat / 16), Nat.digitChar (b.toNat % 16)]

def environmentNames : List String :=
  [Setup.repositoryVariable, Setup.coverageVariable, "NO_COLOR", "TERM"]

def runProgram (args : List String) : IO UInt32 := do
  let home := (← IO.currentDir).toString
  let mut known : List (String × String) := []
  for name in environmentNames do
    if let some value := ← IO.getEnv name then known := (name, value) :: known
  let environment (name : String) := known.lookup name
  let runId := String.join ((← IO.getRandomBytes 8).toList.map hexByte)
  let mut tree := FileTree.empty (placeOf home)
  if let .ok request := CommandLine.parse args then
    tree ← captureAll home (request.paths environment) tree
    tree ← captureAll home (request.sources tree) tree
  let (output, after) := CommandLine.run environment runId args tree
  writeBack tree after
  IO.print output.stdout
  IO.eprint output.stderr
  return output.code.toUInt32

end ModuleSystem

def main (args : List String) : IO UInt32 := ModuleSystem.runProgram args
