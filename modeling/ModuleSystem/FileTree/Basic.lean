import ModuleSystem.FileTree.Path
import ModuleSystem.Text.Utf8

/-! A tree of files, directories and symbolic links, kept as a list of places, and how a path leads
to a place. Links are followed where the system follows them, up to a limit. -/

namespace ModuleSystem

/-- Why the file system, or a reader of texts, refuses. -/
inductive IoError where
  | notFound
  | notDirectory
  | isDirectory
  | exists
  | tooManyLinks
  | nameTooLong
  | nulInName
  | notText
  deriving DecidableEq, Repr

def IoError.message : IoError → String
  | .notFound => "No such file or directory (os error 2)"
  | .notDirectory => "Not a directory (os error 20)"
  | .isDirectory => "Is a directory (os error 21)"
  | .exists => "File exists (os error 17)"
  | .tooManyLinks => "Too many levels of symbolic links (os error 40)"
  | .nameTooLong => "File name too long (os error 36)"
  | .nulInName => "file name contained an unexpected NUL byte"
  | .notText => "stream did not contain valid UTF-8"

inductive FileNode where
  | file (bytes : List UInt8)
  | dir
  | link (target : String)
  deriving DecidableEq, Repr

/-- A place, as the names that lead there from the top. -/
abbrev Place := List String

/-- What stands where, and the directory in which the program works. The top itself has no entry. -/
structure FileTree where
  entries : List (Place × FileNode)
  home : Place
  deriving Repr

namespace FileTree

/-- Only the directory that the program works in, and those above it. -/
def empty (home : Place) : FileTree :=
  ⟨(List.range home.length).map fun n => (home.take (n + 1), .dir), home⟩

def node? (tree : FileTree) : Place → Option FileNode
  | [] => some .dir
  | place => tree.entries.lookup place

/-- Each entry stands in a directory, and no place has two. -/
structure WellFormed (tree : FileTree) : Prop where
  nodup : (tree.entries.map (·.1)).Nodup
  parent_dir : ∀ e ∈ tree.entries, e.1 ≠ [] ∧ tree.node? e.1.dropLast = some .dir

def put (tree : FileTree) (place : Place) (node : FileNode) : FileTree :=
  { tree with entries := (place, node) :: tree.entries.filter (·.1 ≠ place) }

/-- Removes a place and all that lies below it. -/
def prune (tree : FileTree) (place : Place) : FileTree :=
  { tree with entries := tree.entries.filter fun e => !place.isPrefixOf e.1 }

/-- Goes down the names of a path. The last name may be missing; `jump` goes on behind a link. -/
def descend (tree : FileTree) (jump : Place → List String → Except IoError Place) :
    Place → List String → Except IoError Place
  | here, [] => .ok here
  | here, name :: rest =>
    if tree.node? here ≠ some .dir then .error .notDirectory
    else if name = "." then descend tree jump here rest
    else if name = ".." then descend tree jump here.dropLast rest
    else if 255 < name.utf8ByteSize then .error .nameTooLong
    else match tree.node? (here ++ [name]), rest with
      | some (.link target), _ =>
        jump (if Path.isAbsolute target then [] else here) (Path.components target ++ rest)
      | none, _ :: _ => .error .notFound
      | _, _ => descend tree jump (here ++ [name]) rest

/-- As many links as one path may lead through. -/
def linkLimit : Nat := 40

/-- Goes down a path that may lead through `links` links. -/
def follow (tree : FileTree) : Nat → Place → List String → Except IoError Place
  | 0, here, names => descend tree (fun _ _ => .error .tooManyLinks) here names
  | links + 1, here, names => descend tree (follow tree links) here names

/-- Where the names of a path start to count. -/
def start (tree : FileTree) (path : String) : Place :=
  if Path.isAbsolute path then [] else tree.home

/-- The place that a path leads to. Nothing need be there, but the directory it would be in is. -/
def resolve (tree : FileTree) (path : String) : Except IoError Place :=
  if path.toList.contains '\x00' then .error .nulInName
  else if path.isEmpty then .error .notFound
  else follow tree linkLimit (tree.start path) (Path.components path)

/-- What a path leads to. -/
def find (tree : FileTree) (path : String) : Except IoError (Place × FileNode) := do
  let place ← tree.resolve path
  match tree.node? place with
  | some node => return (place, node)
  | none => .error .notFound

/-- The place of the last name of a path. A link there is not followed. -/
def lastPlace (tree : FileTree) (path : String) : Except IoError Place := do
  let names := Path.components path
  match names.getLast? with
  | none => tree.resolve path
  | some name =>
    if name = "." || name = ".." || path.toList.contains '\x00' then tree.resolve path
    else
      let parent ← follow tree linkLimit (tree.start path) names.dropLast
      if tree.node? parent ≠ some .dir then .error .notDirectory
      else if 255 < name.utf8ByteSize then .error .nameTooLong
      else return parent ++ [name]

def isFile (tree : FileTree) (path : String) : Bool :=
  match tree.find path with
  | .ok (_, .file _) => true
  | _ => false

def isDir (tree : FileTree) (path : String) : Bool :=
  match tree.find path with
  | .ok (_, .dir) => true
  | _ => false

def contains (tree : FileTree) (path : String) : Bool := (tree.find path).isOk

def read (tree : FileTree) (path : String) : Except IoError (List UInt8) := do
  match ← tree.find path with
  | (_, .file bytes) => return bytes
  | (_, .dir) => .error .isDirectory
  | (_, .link _) => .error .tooManyLinks

def readText (tree : FileTree) (path : String) : Except IoError String := do
  match Utf8.decode (← tree.read path) with
  | .ok text => return text
  | .error _ => .error .notText

/-- The names in a directory and what they stand for, in order of name. -/
def childrenOf (tree : FileTree) (place : Place) : List (String × FileNode) :=
  let found := tree.entries.filterMap fun e =>
    match e.1.getLast? with
    | some name => if e.1.dropLast = place then some (name, e.2) else none
    | none => none
  found.mergeSort fun a b => !decide (b.1 < a.1)

def list (tree : FileTree) (path : String) : Except IoError (List (String × FileNode)) := do
  match ← tree.find path with
  | (place, .dir) => return tree.childrenOf place
  | _ => .error .notDirectory

/-- All that lies below a place, with the names that lead there from it. -/
def below (tree : FileTree) (place : Place) : List (List String × FileNode) :=
  tree.entries.filterMap fun e =>
    if place.isPrefixOf e.1 && e.1 ≠ place then some (e.1.drop place.length, e.2) else none

end FileTree
end ModuleSystem
