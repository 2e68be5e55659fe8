import ModuleSystem.FileTree.Basic
import ModuleSystem.Module.Instance
import ModuleSystem.Repository.Archive

/-! What repositories answer with. A location says where the source of a module is; the source is
read only when it is needed. -/

namespace ModuleSystem

/-- Why a resource could not be read. -/
inductive ReadFault where
  | io (e : IoError)
  | encoding (f : Utf8.Fault)
  | archive (f : Archive.Fault)
  /-- A manifest lists it, but it is not there. -/
  | absent
  deriving DecidableEq, Repr

def ReadFault.message : ReadFault → String
  | .io e => e.message
  | .encoding f => f.message
  | .archive f => f.message
  | .absent => "listed in the manifest but missing"

inductive RepositoryError where
  | read (repository resource : String) (fault : ReadFault)
  | manifest (origin reason : String)
  deriving DecidableEq, Repr

namespace RepositoryError

def code : RepositoryError → ErrorCode
  | .read .. => .repositoryReadFailed
  | .manifest .. => .invalidManifest

def message (e : RepositoryError) : String :=
  match e with
  | .read repository resource fault => e.code.format [resource, repository, fault.message]
  | .manifest origin reason => e.code.format [origin, reason]

def render (e : RepositoryError) : String := e.code.render e.message

end RepositoryError

inductive Content where
  | prebuilt (module : Prebuilt)
  | file (path : String)
  | bytes (bytes : List UInt8)

/-- What a repository knows of a module. The source name is shown in messages and reports. -/
structure Location where
  repository : String
  sourceName : String
  content : Content

namespace Location

def decode (l : Location) (bytes : List UInt8) : Except RepositoryError String :=
  match Utf8.decode bytes with
  | .ok text => .ok text
  | .error f => .error (.read l.repository l.sourceName (.encoding f))

/-- What is at a location when it is read: bindings, or the text of a source. -/
inductive Material where
  | prebuilt (module : Prebuilt)
  | text (text : String)

def read (l : Location) (tree : FileTree) : Except RepositoryError Material :=
  match l.content with
  | .prebuilt module => .ok (.prebuilt module)
  | .bytes bytes => do return .text (← l.decode bytes)
  | .file path =>
    match tree.read path with
    | .ok bytes => do return .text (← l.decode bytes)
    | .error e => .error (.read l.repository l.sourceName (.io e))

end Location
end ModuleSystem
