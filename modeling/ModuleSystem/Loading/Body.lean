import ModuleSystem.Form.Eval
import ModuleSystem.Loading.Failure
import ModuleSystem.Module.Namespace

/-! Bodies of modules and scripts while they run: the forms that are left, and what the forms before
them have made. -/

namespace ModuleSystem

open Coverage (Span UnitKind)
open Form (Expr Located Program Statement)

/-- Whose body it is. -/
inductive BodyUnit where
  | module (id : ModuleId)
  | script (name : String)
  deriving DecidableEq

namespace BodyUnit

def text : BodyUnit → String
  | .module id => id.text
  | .script name => name

def kind : BodyUnit → UnitKind
  | .module _ => .module
  | .script _ => .script

def id? : BodyUnit → Option ModuleId
  | .module id => some id
  | .script _ => none

def isModule : BodyUnit → Bool
  | .module _ => true
  | .script _ => false

end BodyUnit

/-- A body. While it requires modules, `pending` holds those that are still to come. -/
structure Body where
  unit : BodyUnit
  source : String
  scope : Namespace
  pending : List ModuleId
  rest : Program
  results : List Value

namespace Body

def start (unit : BodyUnit) (source : String) (scope : Namespace) (program : Program) : Body :=
  ⟨unit, source, scope, [], program, []⟩

def fail (b : Body) (span : Option Span) (message : String) : LoadError :=
  .execution b.unit.text span message

/-- The value of an expression at a form. -/
def eval (b : Body) (span : Span) (e : Expr) : Except LoadError Value :=
  match Form.eval b.scope.bindings e with
  | .ok v => .ok v
  | .error fault => .error (b.fail (some span) fault.message)

/-- A string is raised as it is, another value as its text. -/
def raisedText : Value → String
  | .string text => text
  | other => other.text

/-- Runs a form, except that modules it requires are left pending. -/
def perform (b : Body) (form : Located) : Except LoadError Body :=
  match form.statement with
  | .require paths => .ok { b with pending := paths }
  | .define name e => do
    let v ← b.eval form.span e
    return { b with scope := b.scope.define name v }
  | .provide names => .ok { b with scope := names.foldl Namespace.provide b.scope }
  | .doc text => .ok { b with scope := b.scope.setDocs text }
  | .raise e => do
    let v ← b.eval form.span e
    throw (b.fail (some form.span) (raisedText v))
  | .expr e => do
    let v ← b.eval form.span e
    return { b with results := b.results ++ [v] }

/-- The module that was pending first has come. -/
def receive (b : Body) (m : ModuleInstance) : Body :=
  { b with scope := b.scope.importModule m, pending := b.pending.drop 1 }

/-- What a module is when all its forms have run. -/
def sealed (b : Body) (id : ModuleId) : Outcome :=
  match b.scope.sealAs id b.source with
  | .ok m => .ok m
  | .error e => .error (b.fail none e.message)

end Body
end ModuleSystem
