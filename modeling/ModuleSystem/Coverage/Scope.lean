import ModuleSystem.Coverage.Span
import ModuleSystem.Json.Path

/-! Which units a data directory cares about. Without a descriptor every unit is in scope; with one,
the modules at or below a listed path, and the scripts whose name contains a listed text. -/

namespace ModuleSystem.Coverage

structure Scope where
  modules : List ModuleId
  sources : List String
  deriving DecidableEq

namespace Scope

def empty : Scope := ⟨[], []⟩

/-- Whether `part` occurs in `whole` without a gap. -/
def occursIn (part : List Char) : List Char → Bool
  | [] => part.isEmpty
  | c :: rest => part.isPrefixOf (c :: rest) || occursIn part rest

def includes (scope : Scope) (unit : String) : UnitKind → Bool
  | .module =>
    match ModuleId.parseAbsolute unit with
    | .ok id => scope.modules.any id.isWithin
    | .error _ => false
  | .script => scope.sources.any fun part => occursIn part.toList unit.toList

def toJson (scope : Scope) : Json :=
  .object [("included_modules", .array (scope.modules.map fun id => .string id.text)),
    ("included_sources", .array (scope.sources.map .string))]

structure Partial where
  modules : Option (List ModuleId)
  sources : Option (List String)

/-- Both fields may be left out, other fields may not be there. -/
def shape : Json.Shape Partial Scope where
  title := "struct CoverageConfig"
  slots := [
    ⟨"included_modules", (·.modules.isSome), fun s c => do
      let (ids, c) ← Json.sequence Json.moduleId c
      return ({ s with modules := some ids }, c)⟩,
    ⟨"included_sources", (·.sources.isSome), fun s c => do
      let (texts, c) ← Json.sequence Json.text c
      return ({ s with sources := some texts }, c)⟩]
  blank := ⟨none, none⟩
  strict := true
  shortArray := true
  finish s := .ok ⟨s.modules.getD [], s.sources.getD []⟩

def parse (bytes : List UInt8) : Except String Scope :=
  (Json.decodeDocument shape.decode bytes).mapError Json.Failure.message

end Scope

/-- Scope check where there may be no descriptor. -/
def inScope (scope : Option Scope) (unit : String) (kind : UnitKind) : Bool :=
  match scope with
  | none => true
  | some scope => scope.includes unit kind

end ModuleSystem.Coverage
