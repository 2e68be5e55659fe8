import ModuleSystem.Coverage.Span
import ModuleSystem.ModuleId
import ModuleSystem.Value

/-! The form language. A source is a stream of interchange values, one top-level form each. An array
that begins with a string is a form named by that string; all other values stand for themselves. -/

namespace ModuleSystem.Form

open Coverage (Span)

inductive Expr where
  | literal (value : Value)
  | ref (name : String)
  | list (items : List Expr)
  | add (items : List Expr)
  | structPut (target key value : Expr)
  | structGet (target key : Expr)

instance : Inhabited Expr := ⟨.literal .null⟩

inductive Statement where
  | require (paths : List ModuleId)
  | define (name : String) (value : Expr)
  | provide (names : List String)
  | doc (text : String)
  | raise (message : Expr)
  | expr (e : Expr)

/-- A statement and the place where it begins. -/
structure Located where
  span : Span
  statement : Statement

abbrev Program := List Located

def Program.spans (program : Program) : List Span := program.map Located.span

end ModuleSystem.Form
