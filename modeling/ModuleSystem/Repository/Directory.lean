import ModuleSystem.Repository.Basic

/-! Directories as repositories. The module `/a/b` of the directory `root` is the file
`root/src/a/b.loam`. -/

namespace ModuleSystem.Directory

def identity (root : String) : String := "dir:" ++ root

def sourceDir (root : String) : String := Path.join root "src"

def moduleFile (root : String) (id : ModuleId) : String :=
  id.segments.foldl Path.join (sourceDir root) ++ ".loam"

def locate (root : String) (tree : FileTree) (id : ModuleId) : Option Location :=
  let file := moduleFile root id
  if tree.isFile file then some ⟨identity root, file, .file file⟩ else none

/-- The name of a source file without its extension. -/
def stem? (name : String) : Option String :=
  if name.endsWith ".loam" then some (String.ofList (name.toList.take (name.length - 5))) else none

/-- The module that a file below the source directory stands for, if its names can be those of a
module. -/
def idOfFile? (names : List String) : Option ModuleId := do
  let stem ← stem? (← names.getLast?)
  (ModuleId.ofSegments (names.dropLast ++ [stem])).toOption

/-- Every module. Links to directories are not followed; whatever else has the extension counts. -/
def collect (root : String) (tree : FileTree) (select : ModuleId → Bool) : List ModuleId :=
  match tree.find (sourceDir root) with
  | .ok (place, .dir) =>
    let ids := (tree.below place).filterMap fun e =>
      if e.2 = .dir then none else idOfFile? e.1
    idSet (ids.filter select)
  | _ => []

end ModuleSystem.Directory
