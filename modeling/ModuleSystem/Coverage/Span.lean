namespace ModuleSystem.Coverage

/-- Line and column, both counted from one. -/
structure Span where
  line : UInt32
  column : UInt32
  deriving DecidableEq, Repr, Inhabited

namespace Span

/-- Spans are ordered by line, then by column. -/
def lt (a b : Span) : Bool :=
  a.line < b.line || (a.line == b.line && a.column < b.column)

instance : LT Span := ⟨fun a b => a.lt b = true⟩

instance (a b : Span) : Decidable (a < b) := inferInstanceAs (Decidable (a.lt b = true))

def text (s : Span) : String := s!"{s.line}:{s.column}"

instance : ToString Span := ⟨text⟩

end Span

inductive UnitKind where
  /-- Named by its module path. -/
  | module
  /-- Named by the script. -/
  | script
  deriving DecidableEq, Repr

def UnitKind.text : UnitKind → String
  | .module => "module"
  | .script => "script"

end ModuleSystem.Coverage
