import ModuleSystem.Coverage.HitFile
import ModuleSystem.Coverage.Scope
import ModuleSystem.FileTree.Filing

namespace ModuleSystem.Coverage

inductive CoverageError where
  | data (path : String) (cause : IoError)
  | output (path : String) (cause : IoError)
  | config (path reason : String)
  deriving DecidableEq, Repr

namespace CoverageError

def code : CoverageError → ErrorCode
  | .data .. => .coverageDataFailed
  | .output .. => .coverageOutputFailed
  | .config .. => .coverageConfigInvalid

def message (e : CoverageError) : String :=
  match e with
  | .data path cause | .output path cause => e.code.format [path, cause.message]
  | .config path reason => e.code.format [path, reason]

def render (e : CoverageError) : String := e.code.render e.message

end CoverageError

def scopePath (dir : String) : String := Path.join dir "config.json"

/-- The descriptor of a directory. Without one there is no limit. -/
def loadScope (tree : FileTree) (dir : String) : Except CoverageError (Option Scope) :=
  match tree.read (scopePath dir) with
  | .ok bytes =>
    match Scope.parse bytes with
    | .ok scope => .ok (some scope)
    | .error reason => .error (.config (scopePath dir) reason)
  | .error .notFound => .ok none
  | .error e => .error (.data (scopePath dir) e)

def makeDataDir (dir : String) : Filing CoverageError Unit :=
  Filing.edit (.data dir) (·.makeDirs dir)

/-- Writes the descriptor and answers with its path. -/
def saveScope (scope : Scope) (dir : String) : Filing CoverageError String := do
  makeDataDir dir
  Filing.edit (.data (scopePath dir)) (·.write (scopePath dir) (Utf8.encode scope.toJson.pretty))
  return scopePath dir

/-- Writes a hit file in one piece, so that nobody reads half of it. -/
def HitFile.save (file : HitFile) (dir : String) : Filing CoverageError String := do
  makeDataDir dir
  let path := Path.join dir (HitFile.fileName file.runId)
  Filing.edit (.data path) (·.replace path file.bytes)
  return path

/-- The paths of the hit files in a directory, in order. Links to files count. -/
def hitFilePaths (tree : FileTree) (dir : String) : Except CoverageError (List String) :=
  match tree.list dir with
  | .error e => .error (.data dir e)
  | .ok found =>
    let paths := (found.filter fun entry => HitFile.isName entry.1).map fun entry =>
      Path.join dir entry.1
    .ok (paths.filter tree.isFile)

end ModuleSystem.Coverage
