import ModuleSystem.Json.Document
import ModuleSystem.ModuleId

namespace ModuleSystem.Json

/-- The id written by a text, which must be absolute. -/
def moduleId : Decoder ModuleId :=
  checkedText fun s => (ModuleId.parseAbsolute s).mapError PathError.message

end ModuleSystem.Json
