import ModuleSystem.Coverage.Bisection
import ModuleSystem.Coverage.Counts
import ModuleSystem.Coverage.DataDir

/-! Reports: the sum of all hit files of a directory. Files that cannot be trusted are left out and
listed. -/

namespace ModuleSystem.Coverage

structure SkippedFile where
  path : String
  reason : String
  deriving DecidableEq, Repr

def SkippedFile.message (s : SkippedFile) : String :=
  ErrorCode.coverageFileSkipped.format [s.path, s.reason]

structure Report where
  units : List UnitHits
  filesMerged : Nat
  skipped : List SkippedFile
  deriving DecidableEq, Repr

/-- The count of a span. The spans of a unit in a report are in order. -/
def UnitHits.hits (u : UnitHits) (span : Span) : Option UInt64 :=
  (bisect (fun s => compareOfLessAndEq s.span span) u.spans).map (·.hits)

namespace Report

def empty : Report := ⟨[], 0, []⟩

/-- Adds one unit of a file. The first kind and the first known source stay. -/
def addUnit (scope : Option Scope) (units : List UnitHits) (u : UnitHits) : List UnitHits :=
  if inScope scope u.unit u.kind then
    updateUnit ⟨u.unit, u.kind, "", []⟩ (fun sum => (sum.learnSource u.source).addSpans u.spans)
      units
  else units

def addFile (scope : Option Scope) (report : Report) (path : String) :
    Except String HitFile → Report
  | .ok file =>
    { report with
      units := file.units.foldl (addUnit scope) report.units
      filesMerged := report.filesMerged + 1 }
  | .error reason => { report with skipped := report.skipped ++ [⟨path, reason⟩] }

def readHitFile (tree : FileTree) (path : String) : Except String HitFile :=
  match tree.read path with
  | .ok bytes => HitFile.parse bytes
  | .error e => .error e.message

def mergeFiles (tree : FileTree) (scope : Option Scope) (paths : List String) : Report :=
  paths.foldl (fun report path => report.addFile scope path (readHitFile tree path)) empty

/-- The sum of the hit files in a directory. A directory that is not there has none. -/
def merge (tree : FileTree) (dir : String) : Except CoverageError Report := do
  if !tree.contains dir then return empty
  let scope ← loadScope tree dir
  let paths ← hitFilePaths tree dir
  return mergeFiles tree scope paths

def instrumented (r : Report) : Nat := r.units.foldr (·.instrumented + ·) 0

def hitCount (r : Report) : Nat := r.units.foldr (·.hitCount + ·) 0

def percent (r : Report) : Float := percentOf r.hitCount r.instrumented

/-- The units of a report are in order of name. -/
def unit (r : Report) (name : String) : Option UnitHits :=
  bisect (fun u => compareOfLessAndEq u.unit name) r.units

def hits (r : Report) (unit : String) (span : Span) : Option UInt64 := do
  (← r.unit unit).hits span

def toJson (r : Report) : Json :=
  .object [("units", unitsJson r.units), ("files_merged", .int r.filesMerged),
    ("skipped", .array (r.skipped.map fun s =>
      .object [("path", .string s.path), ("reason", .string s.reason)]))]

end Report
end ModuleSystem.Coverage
