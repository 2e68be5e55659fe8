import ModuleSystem.Repository.Bootstrap
import ModuleSystem.Repository.Directory

/-! Chains of repositories. They are asked in order, and the first one that knows a module
decides. -/

namespace ModuleSystem

inductive Repository where
  | directory (root : String)
  | resources (r : ResourceRepository)
  /-- The core library, with the module for the bindings of the runtime. -/
  | bootstrap (library : ResourceRepository)

namespace Repository

def identity : Repository → String
  | .directory root => Directory.identity root
  | .resources r => r.identity
  | .bootstrap library => library.identity

/-- Where a module is, if the repository knows it. -/
def locate (tree : FileTree) (id : ModuleId) :
    Repository → Except RepositoryError (Option Location)
  | .directory root => .ok (Directory.locate root tree id)
  | .resources r => r.locate id
  | .bootstrap library => Bootstrap.locate library id

/-- The selected modules of a repository, in order. -/
def collect (tree : FileTree) (select : ModuleId → Bool) : Repository → List ModuleId
  | .directory root => Directory.collect root tree select
  | .resources r => r.collect select
  | .bootstrap library => Bootstrap.collect library select

end Repository

abbrev Chain := List Repository

namespace Chain

def describe (chain : Chain) : String :=
  if chain.isEmpty then "no repositories configured"
  else String.intercalate ", " (chain.map Repository.identity)

/-- The first repository that knows the module or fails decides; later ones are not asked. -/
def resolve (tree : FileTree) (id : ModuleId) : Chain → Except RepositoryError (Option Location)
  | [] => .ok none
  | repository :: rest =>
    match repository.locate tree id with
    | .error e => .error e
    | .ok (some location) => .ok (some location)
    | .ok none => resolve tree id rest

/-- The selected modules of all repositories, in order, each of them once. -/
def collect (tree : FileTree) (select : ModuleId → Bool) (chain : Chain) : List ModuleId :=
  idSet (chain.flatMap (Repository.collect tree select))

end Chain
end ModuleSystem
