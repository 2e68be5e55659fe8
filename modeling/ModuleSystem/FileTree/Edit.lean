import ModuleSystem.FileTree.Basic

namespace ModuleSystem.FileTree

/-- Writes a file, through a link if the path ends in one. -/
def write (tree : FileTree) (path : String) (bytes : List UInt8) : Except IoError FileTree := do
  let place ← tree.resolve path
  match tree.node? place with
  | some .dir => .error .isDirectory
  | _ => return tree.put place (.file bytes)

/-- Puts a complete file where a path leads, at once. A link there is replaced itself. -/
def replace (tree : FileTree) (path : String) (bytes : List UInt8) : Except IoError FileTree := do
  let place ← tree.lastPlace path
  match tree.node? place with
  | some .dir => .error .isDirectory
  | _ => return tree.put place (.file bytes)

/-- Makes a link, where nothing is yet. -/
def makeLink (tree : FileTree) (path target : String) : Except IoError FileTree := do
  let place ← tree.resolve path
  match tree.node? place with
  | some _ => .error .exists
  | none => return tree.put place (.link target)

/-- Makes the last directory of a path, given by its names. -/
def makeDir (tree : FileTree) (start : Place) (names : List String) : Except IoError FileTree := do
  let parent ← follow tree linkLimit start names.dropLast
  match tree.node? parent, names.getLast? with
  | some .dir, some name =>
    if name = "." || name = ".." || (tree.node? (parent ++ [name])).isSome then .error .exists
    else if 255 < name.utf8ByteSize then .error .nameTooLong
    else return tree.put (parent ++ [name]) .dir
  | none, _ => .error .notFound
  | some .dir, none => .error .exists
  | some _, _ => .error .notDirectory

def isDirAt (tree : FileTree) (start : Place) (names : List String) : Bool :=
  match follow tree linkLimit start names with
  | .ok place => tree.node? place == some .dir
  | .error _ => false

/-- Makes directories along the names of a path, given last name first. -/
def makeDirsFrom (start : Place) : List String → FileTree → Except IoError FileTree
  | [], tree => .ok tree
  | name :: parents, tree =>
    let names := (name :: parents).reverse
    match tree.makeDir start names with
    | .ok made => .ok made
    | .error .notFound => do
      let tree ← makeDirsFrom start parents tree
      if tree.isDirAt start names then return tree else tree.makeDir start names
    | .error e => if tree.isDirAt start names then .ok tree else .error e

/-- Makes a directory and those above it that are missing. -/
def makeDirs (tree : FileTree) (path : String) : Except IoError FileTree :=
  if path.toList.contains '\x00' then .error .nulInName
  else makeDirsFrom (tree.start path) ((Path.components path).filter (· ≠ ".")).reverse tree

/-- Removes a file or a link. -/
def removeFile (tree : FileTree) (path : String) : Except IoError FileTree := do
  let place ← tree.lastPlace path
  match tree.node? place with
  | some .dir => .error .isDirectory
  | some _ => return tree.prune place
  | none => .error .notFound

/-- Removes a directory with all that lies below it, or a link. -/
def removeTree (tree : FileTree) (path : String) : Except IoError FileTree := do
  let place ← tree.lastPlace path
  match tree.node? place with
  | some (.file _) => .error .notDirectory
  | some _ => return tree.prune place
  | none => .error .notFound

end ModuleSystem.FileTree
