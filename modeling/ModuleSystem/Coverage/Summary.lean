import ModuleSystem.Coverage.Report
import ModuleSystem.Decimal.Shortest

namespace ModuleSystem.Coverage.Summary

/-- How much of a unit was hit. A unit without spans is full. -/
inductive Status where
  | full
  | none
  | part
  deriving DecidableEq, Repr

def statusOf (u : UnitHits) : Status :=
  if u.hitCount = u.instrumented then .full else if u.hitCount = 0 then .none else .part

def Status.label : Status → String
  | .full => "FULL"
  | .none => "NONE"
  | .part => "PART"

/-- The terminal's number of a colour: green, red or yellow. -/
def Status.colour : Status → String
  | .full => "32"
  | .none => "31"
  | .part => "33"

def paint (colours : Bool) (colour text : String) : String :=
  if colours then "\x1b[" ++ colour ++ "m" ++ text ++ "\x1b[0m" else text

/-- A percentage with one place and its sign. -/
def percentText (x : Float) : String := String.ofList (Decimal.tenths x) ++ "%"

def ratioText (hit instrumented : Nat) : String := s!"{hit}/{instrumented}"

/-- Names are padded to the size of the largest one in bytes, counting characters. -/
def nameWidth (units : List UnitHits) : Nat :=
  (units.map (·.unit.utf8ByteSize)).foldl max 24

def padded (width : Nat) (text : String) : String :=
  text ++ String.ofList (List.replicate (width - text.length) ' ')

def unitLine (colours : Bool) (width : Nat) (u : UnitHits) : String :=
  let status := statusOf u
  "  " ++ paint colours status.colour status.label ++ "  " ++ padded width u.unit ++ " "
    ++ ratioText u.hitCount u.instrumented ++ " (" ++ percentText u.percent ++ ")\n"

def skippedLines (colours : Bool) (s : SkippedFile) : String :=
  "  " ++ paint colours Status.part.colour "SKIP" ++ "  " ++ s.path ++ "\n          " ++ s.reason
    ++ "\n"

def text (r : Report) (colours : Bool) : String :=
  let width := nameWidth r.units
  s!"Coverage from {r.filesMerged} data file(s)\n\n"
    ++ String.join (r.units.map (unitLine colours width))
    ++ String.join (r.skipped.map (skippedLines colours))
    ++ s!"\n{r.units.length} unit(s): " ++ ratioText r.hitCount r.instrumented
    ++ " spans hit (" ++ percentText r.percent ++ ")\n"

/-- Colours are left out when asked for, and on terminals that have none. -/
def coloursEnabled (environment : String → Option String) : Bool :=
  (environment "NO_COLOR").isNone && environment "TERM" != some "dumb"

end ModuleSystem.Coverage.Summary
