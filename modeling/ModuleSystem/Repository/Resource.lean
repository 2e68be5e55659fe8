import ModuleSystem.Json.Path
import ModuleSystem.Repository.Basic

/-! Repositories over named resources, such as the files of an archive. A manifest lists the modules
and says where their sources are. -/

namespace ModuleSystem

structure Manifest where
  version : UInt32
  root : String
  modules : List ModuleId
  deriving DecidableEq

namespace Manifest

structure Partial where
  version : Option Nat
  root : Option String
  modules : Option (List ModuleId)

def shape : Json.Shape Partial Manifest where
  title := "struct Manifest"
  slots := [
    ⟨"version", (·.version.isSome), fun s c => do
      let (n, c) ← Json.nat32 c
      return ({ s with version := some n }, c)⟩,
    ⟨"root", (·.root.isSome), fun s c => do
      let (t, c) ← Json.text c
      return ({ s with root := some t }, c)⟩,
    ⟨"modules", (·.modules.isSome), fun s c => do
      let (ids, c) ← Json.sequence Json.moduleId c
      return ({ s with modules := some ids }, c)⟩]
  blank := ⟨none, none, none⟩
  strict := false
  shortArray := false
  finish s := do
    let version ← Json.required "version" s.version
    let root ← Json.required "root" s.root
    let modules ← Json.required "modules" s.modules
    return ⟨.ofNat version, root, modules⟩

def resourceName : String := "manifest.json"

/-- Reads a manifest and checks what its form does not say. -/
def parse (bytes : List UInt8) : Except String Manifest := do
  let m ← (Json.decodeDocument shape.decode bytes).mapError Json.Failure.message
  if m.version ≠ 1 then throw s!"unsupported version {m.version}"
  if !m.root.startsWith "/" then throw ("root `" ++ m.root ++ "` must start with `/`")
  return m

end Manifest

/-- A repository over resources. Its modules are in order, each of them once. -/
structure ResourceRepository where
  identity : String
  root : String
  modules : List ModuleId
  resources : Fields (List UInt8)

namespace ResourceRepository

def trimSlashesEnd (text : String) : String :=
  String.ofList (text.toList.reverse.dropWhile (· = '/')).reverse

def ofResources (identity : String) (resources : Fields (List UInt8)) :
    Except RepositoryError ResourceRepository :=
  match resources.get? Manifest.resourceName with
  | none => .error (.manifest identity ("no `" ++ Manifest.resourceName ++ "` resource"))
  | some bytes =>
    match Manifest.parse bytes with
    | .ok m => .ok ⟨identity, trimSlashesEnd m.root, idSet m.modules, resources⟩
    | .error reason => .error (.manifest identity reason)

def archiveIdentity (origin : String) : String := "archive:" ++ origin

def ofArchive (origin : String) (bytes : List UInt8) : Except RepositoryError ResourceRepository :=
  match Archive.files bytes with
  | .ok resources => ofResources (archiveIdentity origin) resources
  | .error f => .error (.read (archiveIdentity origin) "tar entries" (.archive f))

def openArchive (tree : FileTree) (path : String) : Except RepositoryError ResourceRepository :=
  match tree.read path with
  | .ok bytes => ofArchive path bytes
  | .error e => .error (.read (archiveIdentity path) path (.io e))

/-- Resources have no slash in front. -/
def resourceName (r : ResourceRepository) (id : ModuleId) : String :=
  String.ofList ((r.root ++ "/src" ++ id.text ++ ".loam").toList.dropWhile (· = '/'))

/-- A module that is listed must have its resource. -/
def locate (r : ResourceRepository) (id : ModuleId) : Except RepositoryError (Option Location) :=
  if r.modules.contains id then
    let name := r.resourceName id
    match r.resources.get? name with
    | some bytes => .ok (some ⟨r.identity, r.identity ++ "!/" ++ name, .bytes bytes⟩)
    | none => .error (.read r.identity name .absent)
  else .ok none

def collect (r : ResourceRepository) (select : ModuleId → Bool) : List ModuleId :=
  r.modules.filter select

end ResourceRepository
end ModuleSystem
