import ModuleSystem.Repository.Resource

/-! The core library that comes with the runtime: a few modules as sources, and one for the bindings
of the runtime itself. -/

namespace ModuleSystem.Bootstrap

def manifestText : String :=
  "\x7b\n"
    ++ "  \"version\": 1,\n"
    ++ "  \"root\": \"/\",\n"
    ++ "  \"modules\": [\"/loam/base\", \"/loam/list\"]\n"
    ++ "\x7d\n"

def baseText : String :=
  "[\"doc\", \"Core definitions shared by every loam program.\"]\n"
    ++ "[\"require\", \"/loam/kernel\"]\n"
    ++ "\n"
    ++ "[\"define\", \"zero\", 0]\n"
    ++ "[\"define\", \"one\", 1]\n"
    ++ "[\"define\", \"empty_list\", [\"list\"]]\n"
    ++ "[\"define\", \"empty_struct\", \x7b\x7d]\n"
    ++ "\n"
    ++ "[\"provide\", \"zero\", \"one\", \"empty_list\", \"empty_struct\", "
    ++ "\"language\", \"version\"]\n"

def listText : String :=
  "[\"doc\", \"Common list constants.\"]\n"
    ++ "[\"require\", \"/loam/base\"]\n"
    ++ "\n"
    ++ "[\"define\", \"digits\", [\"list\", 0, 1, 2, 3, 4, 5, 6, 7, 8, 9]]\n"
    ++ "[\"define\", \"digit_count\", [\"+\", 9, [\"ref\", \"one\"]]]\n"

def resources : Fields (List UInt8) :=
  .ofList [(Manifest.resourceName, Utf8.encode manifestText),
    ("src/loam/base.loam", Utf8.encode baseText), ("src/loam/list.loam", Utf8.encode listText)]

def library : Except RepositoryError ResourceRepository :=
  ResourceRepository.ofResources "embedded:bootstrap" resources

def kernelId : ModuleId := ⟨"/loam/kernel", by decide⟩

/-- The module that a new top level starts from. -/
def baseId : ModuleId := ⟨"/loam/base", by decide⟩

def kernel : Prebuilt where
  bindings := [("language", .string "loam"), ("version", .string "0.1.0")]
  docs := some "Native bindings provided by the runtime itself."

def kernelSource : String := "<builtin " ++ kernelId.text ++ ">"

def locate (library : ResourceRepository) (id : ModuleId) :
    Except RepositoryError (Option Location) :=
  if id = kernelId then .ok (some ⟨library.identity, kernelSource, .prebuilt kernel⟩)
  else library.locate id

def collect (library : ResourceRepository) (select : ModuleId → Bool) : List ModuleId :=
  let ids := library.collect select
  if select kernelId then sortIds (ids ++ [kernelId]) else ids

end ModuleSystem.Bootstrap
