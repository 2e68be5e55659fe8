import ModuleSystem.Module.Instance

namespace ModuleSystem

/-- A namespace under construction, while a body runs. -/
structure Namespace where
  bindings : Fields Value
  defined : List String
  provided : List String
  dependencies : List ModuleId
  docs : Option String

/-- The first provided name that nothing is bound to. -/
structure SealError where
  name : String
  deriving DecidableEq

def SealError.message (e : SealError) : String :=
  s!"provided name `{e.name}` is not defined"

namespace Namespace

/-- Bindings that were there before do not count as defined. -/
def ofBindings (bindings : Fields Value) : Namespace := ⟨bindings, [], [], [], none⟩

def empty : Namespace := ofBindings []

def lookup (ns : Namespace) (name : String) : Option Value := ns.bindings.get? name

def define (ns : Namespace) (name : String) (value : Value) : Namespace :=
  { ns with
    bindings := Value.assign ns.bindings name value
    defined := if ns.defined.contains name then ns.defined else ns.defined ++ [name] }

def provide (ns : Namespace) (name : String) : Namespace :=
  { ns with
    provided := if ns.provided.contains name then ns.provided else ns.provided ++ [name] }

def setDocs (ns : Namespace) (text : String) : Namespace := { ns with docs := some text }

/-- Brings the exports of a module into scope, over bindings of the same names. -/
def importModule (ns : Namespace) (m : ModuleInstance) : Namespace :=
  { ns with
    bindings := Value.assignAll ns.bindings m.exports
    dependencies :=
      if ns.dependencies.contains m.id then ns.dependencies else ns.dependencies ++ [m.id] }

/-- A module that provides nothing by name offers all that it defined itself; otherwise each name
must be bound. -/
def sealAs (ns : Namespace) (id : ModuleId) (source : String) : Except SealError ModuleInstance :=
  match ns.provided with
  | [] => .ok ⟨id, source, ns.bindings, sortedNames ns.defined, ns.dependencies, ns.docs⟩
  | _ :: _ =>
    match ns.provided.find? fun name => !ns.bindings.contains name with
    | some name => .error ⟨name⟩
    | none => .ok ⟨id, source, ns.bindings, sortedNames ns.provided, ns.dependencies, ns.docs⟩

end Namespace
end ModuleSystem
