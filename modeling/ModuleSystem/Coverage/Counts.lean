import ModuleSystem.Coverage.HitFile

/-! Tables of counts. A table lists its units in order of name and the spans of a unit in order of
position, each once. A unit or span that is not there yet is added where it belongs. -/

namespace ModuleSystem.Coverage

/-- Changes the count of a span. One that is not listed starts at zero. -/
def bump (change : UInt64 → UInt64) (span : Span) : List SpanHits → List SpanHits
  | [] => [⟨span, change 0⟩]
  | s :: rest =>
    if span < s.span then ⟨span, change 0⟩ :: s :: rest
    else if s.span = span then ⟨span, change s.hits⟩ :: rest
    else s :: bump change span rest

/-- The count of a span, if it is listed. -/
def hitsOf (span : Span) (spans : List SpanHits) : Option UInt64 :=
  (spans.find? (·.span = span)).map (·.hits)

/-- Changes a unit. One that is not listed starts as `blank`, which has the same name. -/
def updateUnit (blank : UnitHits) (change : UnitHits → UnitHits) : List UnitHits → List UnitHits
  | [] => [change blank]
  | u :: rest =>
    if blank.unit < u.unit then change blank :: u :: rest
    else if u.unit = blank.unit then change u :: rest
    else u :: updateUnit blank change rest

def unitOf (unit : String) (units : List UnitHits) : Option UnitHits :=
  units.find? (·.unit = unit)

namespace UnitHits

/-- Keeps the first source that is known. -/
def learnSource (u : UnitHits) (source : String) : UnitHits :=
  if u.source.isEmpty then { u with source } else u

/-- Lists spans without counting them. -/
def track (u : UnitHits) (spans : List Span) : UnitHits :=
  { u with spans := spans.foldl (fun spans span => bump id span spans) u.spans }

/-- Counts one hit. A counter that is full starts again at zero. -/
def hit (u : UnitHits) (span : Span) : UnitHits :=
  { u with spans := bump (· + 1) span u.spans }

/-- The sum of two counts, or the largest count if the sum is larger. -/
def saturatingAdd (a b : UInt64) : UInt64 := .ofNat (min (a.toNat + b.toNat) (UInt64.size - 1))

/-- Adds the counts of other spans. -/
def addSpans (u : UnitHits) (spans : List SpanHits) : UnitHits :=
  { u with spans := spans.foldl (fun sum s => bump (saturatingAdd · s.hits) s.span sum) u.spans }

def instrumented (u : UnitHits) : Nat := u.spans.length

def hitCount (u : UnitHits) : Nat := (u.spans.filter (0 < ·.hits)).length

def missed (u : UnitHits) : List Span := (u.spans.filter (·.hits = 0)).map (·.span)

end UnitHits

/-- A unit without spans has nothing to miss. -/
def percentOf (hit instrumented : Nat) : Float :=
  if instrumented = 0 then 100 else hit.toFloat * 100 / instrumented.toFloat

def UnitHits.percent (u : UnitHits) : Float := percentOf u.hitCount u.instrumented

end ModuleSystem.Coverage
