import ModuleSystem.Loading.Loader

/-! Top levels: namespaces in which scripts run one after the other. What a script binds stays, also
when the script fails later. -/

namespace ModuleSystem

structure TopLevel where
  scope : Namespace

namespace TopLevel

def empty : TopLevel := ⟨.empty⟩

/-- A top level that sees the exports of a module. -/
def seeded (m : ModuleInstance) : TopLevel := ⟨.ofBindings m.exports⟩

def bindings (top : TopLevel) : Fields Value := top.scope.bindings

def define (top : TopLevel) (name : String) (value : Value) : TopLevel :=
  ⟨top.scope.define name value⟩

/-- How a script went. -/
inductive ScriptResult where
  | values (vs : List Value)
  | failed (e : LoadError)
  | broken

/-- The scope that a script leaves, and how it went. -/
def settleScript (top : TopLevel) : Option Ending → TopLevel × Option ScriptResult
  | some (.ran scope (.ok vs)) => (⟨scope⟩, some (.values vs))
  | some (.ran scope (.error e)) => (⟨scope⟩, some (.failed e))
  | some (.broken (some scope)) => (⟨scope⟩, some .broken)
  | some _ => (top, some .broken)
  | none => (top, none)

/-- Runs a text as a script. -/
def eval (top : TopLevel) (l : Loader) (files : FileTree) (name text : String) :
    Loader × TopLevel × Option ScriptResult :=
  let (l, ending) := l.runScript files name text top.scope
  (l, top.settleScript ending)

/-- Runs a file as a script of its name. -/
def evalFile (top : TopLevel) (l : Loader) (files : FileTree) (path : String) :
    Loader × TopLevel × Option ScriptResult :=
  match files.readText path with
  | .ok text => top.eval l files path text
  | .error e => (l, top, some (.failed (.repository (.read "script" path (.io e)))))

end TopLevel
end ModuleSystem
