import ModuleSystem.Coverage.Session

namespace ModuleSystem

open Coverage (Session Span UnitKind)

inductive RecorderCall where
  | instrument (unit : String) (kind : UnitKind) (source : String) (spans : List Span)
  | record (unit : String) (span : Span)
  deriving DecidableEq, Repr

/-- Where loading reports what it runs. -/
inductive Recorder where
  | off
  | session (s : Session)
  /-- Keeps the calls. One that is not enabled is not told of units before they run. -/
  | log (enabled : Bool) (calls : List RecorderCall)

namespace Recorder

def instrument (unit : String) (kind : UnitKind) (source : String) (spans : List Span) :
    Recorder → Recorder
  | .off => .off
  | .session s => .session (s.instrument unit kind source spans)
  | .log false calls => .log false calls
  | .log true calls => .log true (calls ++ [.instrument unit kind source spans])

def record (unit : String) (span : Span) : Recorder → Recorder
  | .off => .off
  | .session s => .session (s.record unit span)
  | .log enabled calls => .log enabled (calls ++ [.record unit span])

def session? : Recorder → Option Session
  | .session s => some s
  | _ => none

end Recorder
end ModuleSystem
