import ModuleSystem.Coverage.Span
import ModuleSystem.Json.Document
import ModuleSystem.Text.Sha256

/-! Hit files: what one recording session leaves on disk. A file carries the digest of the compact
text of its units, so that a file that was changed or cut short is not trusted. -/

namespace ModuleSystem.Coverage

structure SpanHits where
  span : Span
  hits : UInt64
  deriving DecidableEq, Repr

structure UnitHits where
  unit : String
  kind : UnitKind
  source : String
  spans : List SpanHits
  deriving DecidableEq, Repr

structure HitFile where
  version : UInt32
  runId : String
  digest : String
  units : List UnitHits
  deriving DecidableEq, Repr

def hitsVersion : UInt32 := 1

def SpanHits.toJson (s : SpanHits) : Json :=
  .object [("line", .int s.span.line.toNat), ("column", .int s.span.column.toNat),
    ("hits", .int s.hits.toNat)]

def UnitHits.toJson (u : UnitHits) : Json :=
  .object [("unit", .string u.unit), ("kind", .string u.kind.text), ("source", .string u.source),
    ("spans", .array (u.spans.map SpanHits.toJson))]

def unitsJson (units : List UnitHits) : Json := .array (units.map UnitHits.toJson)

def digestOf (units : List UnitHits) : String :=
  Sha256.digest (Utf8.encodeChars (unitsJson units).compactChars)

namespace SpanHits

structure Partial where
  line : Option Nat
  column : Option Nat
  hits : Option Nat

def shape : Json.Shape Partial SpanHits where
  title := "struct SpanHits"
  slots := [
    ⟨"line", (·.line.isSome), fun s c => do
      let (n, c) ← Json.nat32 c
      return ({ s with line := some n }, c)⟩,
    ⟨"column", (·.column.isSome), fun s c => do
      let (n, c) ← Json.nat32 c
      return ({ s with column := some n }, c)⟩,
    ⟨"hits", (·.hits.isSome), fun s c => do
      let (n, c) ← Json.nat64 c
      return ({ s with hits := some n }, c)⟩]
  blank := ⟨none, none, none⟩
  strict := false
  shortArray := false
  finish s := do
    let line ← Json.required "line" s.line
    let column ← Json.required "column" s.column
    let hits ← Json.required "hits" s.hits
    return ⟨⟨.ofNat line, .ofNat column⟩, .ofNat hits⟩

end SpanHits

namespace UnitHits

structure Partial where
  unit : Option String
  kind : Option UnitKind
  source : Option String
  spans : Option (List SpanHits)

def kindChoices : List (String × UnitKind) := [("module", .module), ("script", .script)]

def shape : Json.Shape Partial UnitHits where
  title := "struct UnitHits"
  slots := [
    ⟨"unit", (·.unit.isSome), fun s c => do
      let (t, c) ← Json.text c
      return ({ s with unit := some t }, c)⟩,
    ⟨"kind", (·.kind.isSome), fun s c => do
      let (k, c) ← Json.choice kindChoices c
      return ({ s with kind := some k }, c)⟩,
    ⟨"source", (·.source.isSome), fun s c => do
      let (t, c) ← Json.text c
      return ({ s with source := some t }, c)⟩,
    ⟨"spans", (·.spans.isSome), fun s c => do
      let (l, c) ← Json.sequence SpanHits.shape.decode c
      return ({ s with spans := some l }, c)⟩]
  blank := ⟨none, none, none, none⟩
  strict := false
  shortArray := false
  finish s := do
    let unit ← Json.required "unit" s.unit
    let kind ← Json.required "kind" s.kind
    let source ← Json.required "source" s.source
    let spans ← Json.required "spans" s.spans
    return ⟨unit, kind, source, spans⟩

end UnitHits

namespace HitFile

structure Partial where
  version : Option Nat
  runId : Option String
  digest : Option String
  units : Option (List UnitHits)

def shape : Json.Shape Partial HitFile where
  title := "struct HitFile"
  slots := [
    ⟨"version", (·.version.isSome), fun s c => do
      let (n, c) ← Json.nat32 c
      return ({ s with version := some n }, c)⟩,
    ⟨"run_id", (·.runId.isSome), fun s c => do
      let (t, c) ← Json.text c
      return ({ s with runId := some t }, c)⟩,
    ⟨"digest", (·.digest.isSome), fun s c => do
      let (t, c) ← Json.text c
      return ({ s with digest := some t }, c)⟩,
    ⟨"units", (·.units.isSome), fun s c => do
      let (l, c) ← Json.sequence UnitHits.shape.decode c
      return ({ s with units := some l }, c)⟩]
  blank := ⟨none, none, none, none⟩
  strict := false
  shortArray := false
  finish s := do
    let version ← Json.required "version" s.version
    let runId ← Json.required "run_id" s.runId
    let digest ← Json.required "digest" s.digest
    let units ← Json.required "units" s.units
    return ⟨.ofNat version, runId, digest, units⟩

def ofUnits (runId : String) (units : List UnitHits) : HitFile :=
  ⟨hitsVersion, runId, digestOf units, units⟩

/-- Fields are written in order of declaration. -/
def toJson (file : HitFile) : Json :=
  .object [("version", .int file.version.toNat), ("run_id", .string file.runId),
    ("digest", .string file.digest), ("units", unitsJson file.units)]

/-- The bytes of the file on disk. -/
def bytes (file : HitFile) : List UInt8 := Utf8.encodeChars (file.toJson.prettyChars 0)

/-- Reads and checks a file. The error says why it cannot be trusted. -/
def parse (bytes : List UInt8) : Except String HitFile :=
  match Json.decodeDocument shape.decode bytes with
  | .error e => .error e.message
  | .ok file =>
    if file.version ≠ hitsVersion then .error s!"unsupported version {file.version}"
    else if digestOf file.units ≠ file.digest then .error "digest does not match its contents"
    else .ok file

def fileName (runId : String) : String := "hits-" ++ runId ++ ".json"

/-- Whether a file name is that of a hit file. -/
def isName (name : String) : Bool :=
  name.startsWith "hits-" && name.endsWith ".json"

end HitFile
end ModuleSystem.Coverage
