import ModuleSystem.Coverage.Counts
import ModuleSystem.Coverage.DataDir

/-! Recording sessions. A session counts in memory and owns one hit file of its directory. Every
flush writes all counts so far into that file, so a hit is never counted twice, however often it is
flushed. -/

namespace ModuleSystem.Coverage

/-- What one session knows. It is dirty when something was recorded since the last flush began. -/
structure Session where
  dir : String
  runId : String
  scope : Option Scope
  units : List UnitHits
  dirty : Bool

namespace Session

/-- Makes the directory if need be and reads its descriptor. -/
def start (dir runId : String) : Filing CoverageError Session := do
  makeDataDir dir
  match loadScope (← get) dir with
  | .ok scope => return ⟨dir, runId, scope, [], false⟩
  | .error e => throw e

/-- Changes a unit. The scope decides only about units that are not known yet. -/
def update (s : Session) (blank : UnitHits) (change : UnitHits → UnitHits) : Session :=
  if (unitOf blank.unit s.units).isSome || inScope s.scope blank.unit blank.kind then
    { s with units := updateUnit blank change s.units, dirty := true }
  else s

/-- Makes the spans of a unit known, before any of them is hit. -/
def instrument (s : Session) (unit : String) (kind : UnitKind) (source : String)
    (spans : List Span) : Session :=
  s.update ⟨unit, kind, source, []⟩ fun u => (u.learnSource source).track spans

/-- Counts a hit. A unit that nobody made known is taken to be a module of unknown source. -/
def record (s : Session) (unit : String) (span : Span) : Session :=
  s.update ⟨unit, .module, "", []⟩ (·.hit span)

def hits (s : Session) (unit : String) (span : Span) : Option UInt64 := do
  hitsOf span (← unitOf unit s.units).spans

/-- Writes the counts so far. Answers with the session, and with the path of its file or why it
could not be written; a session without units has no file. -/
def flush (s : Session) : StateM FileTree (Session × Except CoverageError (Option String)) := do
  if s.units.isEmpty then return ({ s with dirty := false }, .ok none)
  else match ← ((HitFile.ofUnits s.runId s.units).save s.dir).run with
    | .ok path => return ({ s with dirty := false }, .ok (some path))
    | .error e => return ({ s with dirty := true }, .error e)

/-- The end of a session: what is not on disk yet is written, if it can be. -/
def close (s : Session) : StateM FileTree Unit := do
  if s.dirty then discard s.flush

end Session
end ModuleSystem.Coverage
