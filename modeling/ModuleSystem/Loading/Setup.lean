import ModuleSystem.Loading.TopLevel

/-! Setting up a loader: its repositories in their order, the place of the core library among them,
and where coverage is recorded. -/

namespace ModuleSystem

/-- A repository that is to be opened, or one that is ready. -/
inductive RepositoryChoice where
  | directory (path : String)
  | archive (path : String)
  | ready (r : Repository)

inductive SetupError where
  | missingDirectory (path : String)
  | repository (e : RepositoryError)
  | coverage (e : Coverage.CoverageError)
  deriving DecidableEq

namespace SetupError

def code : SetupError → ErrorCode
  | .missingDirectory _ => .invalidConfiguration
  | .repository e => e.code
  | .coverage e => e.code

def message : SetupError → String
  | .missingDirectory path =>
    ErrorCode.invalidConfiguration.format ["repository directory `" ++ path ++ "` does not exist"]
  | .repository e => e.message
  | .coverage e => e.message

def render (e : SetupError) : String := e.code.render e.message

end SetupError

def RepositoryChoice.openIn (files : FileTree) :
    RepositoryChoice → Except SetupError Repository
  | .directory path =>
    if files.isDir path then .ok (.directory path) else .error (.missingDirectory path)
  | .archive path =>
    match ResourceRepository.openArchive files path with
    | .ok r => .ok (.resources r)
    | .error e => .error (.repository e)
  | .ready r => .ok r

/-- A recorder that is given goes before a coverage directory. -/
structure Setup where
  repositories : List RepositoryChoice
  bootstrapFirst : Bool
  coverageDir : Option String
  recorder : Option Recorder

namespace Setup

def empty : Setup := ⟨[], false, none, none⟩

def add (s : Setup) (choice : RepositoryChoice) : Setup :=
  { s with repositories := s.repositories ++ [choice] }

def repositoryVariable : String := "LOAM_REPOSITORY_PATH"

def coverageVariable : String := "LOAM_COVERAGE_DATA_DIR"

/-- The directories of a path list; empty ones do not count. -/
def pathList (text : String) : List String :=
  ((text.toList.splitOn ':').map String.ofList).filter (! ·.isEmpty)

/-- Takes further directories, and a coverage directory unless there is one, from variables. -/
def withEnvironment (s : Setup) (environment : String → Option String) : Setup :=
  let paths := (environment repositoryVariable).elim [] pathList
  let s := paths.foldl (fun s path => s.add (.directory path)) s
  { s with coverageDir := s.coverageDir.or (environment coverageVariable) }

/-- All repositories, with the core library last or first. -/
def chain (s : Setup) (files : FileTree) : Except SetupError Chain := do
  let opened ← s.repositories.mapM (RepositoryChoice.openIn files)
  match Bootstrap.library with
  | .error e => throw (.repository e)
  | .ok library =>
    return if s.bootstrapFirst then .bootstrap library :: opened
      else opened ++ [.bootstrap library]

/-- The recorder; a session that is started for it gets the given run id. -/
def openRecorder (s : Setup) (runId : String) : Filing SetupError Recorder := do
  match s.recorder, s.coverageDir with
  | some recorder, _ => return recorder
  | none, some dir =>
    ExceptT.adapt SetupError.coverage do
      return .session (← Coverage.Session.start dir runId)
  | none, none => return .off

/-- Opens everything in order. -/
def build (s : Setup) (runId : String) (held broken : List String) : Filing SetupError Loader := do
  match s.chain (← get) with
  | .error e => throw e
  | .ok chain => return .create chain (← s.openRecorder runId) held broken

end Setup
end ModuleSystem
