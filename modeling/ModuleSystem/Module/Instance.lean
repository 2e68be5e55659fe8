import ModuleSystem.ModuleId
import ModuleSystem.Value

namespace ModuleSystem

/-- A loaded module: every binding that it defined or imported, the names that it offers to others,
and the modules that it required, in the order in which it first did. -/
structure ModuleInstance where
  id : ModuleId
  source : String
  bindings : Fields Value
  provided : List String
  dependencies : List ModuleId
  docs : Option String

/-- What a module that requires this one gets to see. -/
def ModuleInstance.exports (m : ModuleInstance) : Fields Value :=
  m.bindings.select m.provided

/-- A module without source, such as the one for the bindings of the runtime itself. -/
structure Prebuilt where
  bindings : List (String × Value)
  docs : Option String

/-- It provides all that it binds. -/
def Prebuilt.instantiate (p : Prebuilt) (id : ModuleId) (source : String) : ModuleInstance :=
  let bindings := Value.assignAll [] p.bindings
  ⟨id, source, bindings, bindings.names, [], p.docs⟩

end ModuleSystem
