/-! Every failure a user can see carries a stable code. A code has a title, a class, a message
template and sometimes a hint; templates are filled from left to right, values verbatim. -/

namespace ModuleSystem

/-- Failure classes. Recovery differs per class, so they are kept apart. -/
inductive ErrorClass where
  | resolution
  | compile
  | execution
  | cycle
  | coverage
  | usage
  deriving DecidableEq, Repr

/-- What stands in parentheses after the title in a rendered error. -/
def ErrorClass.heading : ErrorClass → String
  | .resolution => "Resolution error"
  | .compile => "Compile error"
  | .execution => "Execution error"
  | .cycle => "Dependency error"
  | .coverage => "Coverage error"
  | .usage => "Usage error"

inductive ErrorCode where
  | moduleNotFound
  | invalidModulePath
  | repositoryReadFailed
  | invalidManifest
  | moduleAlreadyRegistered
  | compileFailed
  | executionFailed
  | loadTimedOut
  | invalidArgument
  | moduleCycle
  | coverageFileSkipped
  | coverageOutputFailed
  | coverageDataFailed
  | coverageConfigInvalid
  | invalidConfiguration
  deriving DecidableEq, Repr

namespace ErrorCode

/-- The registry, in the order in which it is listed. -/
def all : List ErrorCode :=
  [moduleNotFound, invalidModulePath, repositoryReadFailed, invalidManifest,
   moduleAlreadyRegistered, compileFailed, executionFailed, loadTimedOut, invalidArgument,
   moduleCycle, coverageFileSkipped, coverageOutputFailed, coverageDataFailed,
   coverageConfigInvalid, invalidConfiguration]

def code : ErrorCode → String
  | moduleNotFound => "E100"
  | invalidModulePath => "E101"
  | repositoryReadFailed => "E102"
  | invalidManifest => "E103"
  | moduleAlreadyRegistered => "E104"
  | compileFailed => "E200"
  | executionFailed => "E300"
  | loadTimedOut => "E301"
  | invalidArgument => "E302"
  | moduleCycle => "E400"
  | coverageFileSkipped => "E500"
  | coverageOutputFailed => "E501"
  | coverageDataFailed => "E502"
  | coverageConfigInvalid => "E503"
  | invalidConfiguration => "E600"

def title : ErrorCode → String
  | moduleNotFound => "MODULE NOT FOUND"
  | invalidModulePath => "INVALID MODULE PATH"
  | repositoryReadFailed => "REPOSITORY READ FAILED"
  | invalidManifest => "INVALID REPOSITORY MANIFEST"
  | moduleAlreadyRegistered => "MODULE ALREADY REGISTERED"
  | compileFailed => "COMPILE FAILED"
  | executionFailed => "EXECUTION FAILED"
  | loadTimedOut => "LOAD TIMED OUT"
  | invalidArgument => "INVALID ARGUMENT"
  | moduleCycle => "MODULE CYCLE"
  | coverageFileSkipped => "COVERAGE FILE SKIPPED"
  | coverageOutputFailed => "COVERAGE OUTPUT FAILED"
  | coverageDataFailed => "COVERAGE DATA FAILED"
  | coverageConfigInvalid => "COVERAGE CONFIG INVALID"
  | invalidConfiguration => "INVALID CONFIGURATION"

def errorClass : ErrorCode → ErrorClass
  | moduleNotFound | invalidModulePath | repositoryReadFailed | invalidManifest
  | moduleAlreadyRegistered => .resolution
  | compileFailed => .compile
  | executionFailed | loadTimedOut | invalidArgument => .execution
  | moduleCycle => .cycle
  | coverageFileSkipped | coverageOutputFailed | coverageDataFailed
  | coverageConfigInvalid => .coverage
  | invalidConfiguration => .usage

/-- The message template; an opening brace followed by a closing one is a hole. -/
def template : ErrorCode → String
  | moduleNotFound =>
    "Module `\x7b\x7d` was not found in any configured repository (\x7b\x7d)."
  | invalidModulePath => "Invalid module path `\x7b\x7d`: \x7b\x7d."
  | repositoryReadFailed => "Could not read `\x7b\x7d` from repository \x7b\x7d: \x7b\x7d."
  | invalidManifest => "Invalid repository manifest \x7b\x7d: \x7b\x7d."
  | moduleAlreadyRegistered => "Module `\x7b\x7d` already has an instance in this runtime."
  | compileFailed => "`\x7b\x7d` failed to compile at \x7b\x7d: \x7b\x7d."
  | executionFailed => "`\x7b\x7d` raised an error at \x7b\x7d: \x7b\x7d."
  | loadTimedOut => "Gave up waiting for module `\x7b\x7d` after \x7b\x7dms."
  | invalidArgument => "Invalid argument: \x7b\x7d."
  | moduleCycle => "Cyclic module dependency: \x7b\x7d."
  | coverageFileSkipped => "Skipped coverage data file \x7b\x7d: \x7b\x7d."
  | coverageOutputFailed => "Could not write coverage output \x7b\x7d: \x7b\x7d."
  | coverageDataFailed => "Could not access coverage data \x7b\x7d: \x7b\x7d."
  | coverageConfigInvalid => "Invalid coverage configuration \x7b\x7d: \x7b\x7d."
  | invalidConfiguration => "Invalid runtime configuration: \x7b\x7d."

def hint : ErrorCode → Option String
  | moduleNotFound =>
    some "Check the module path, or add a repository with --repo / LOAM_REPOSITORY_PATH."
  | invalidModulePath =>
    some <| "Module paths look like `/a/b/c`; each segment starts with a letter or `_` and "
      ++ "contains only letters, digits and `_`."
  | invalidManifest =>
    some <| "Manifests are a single JSON object: \x7b\"version\": 1, \"root\": \"/prefix\", "
      ++ "\"modules\": [\"/a/b\"]\x7d."
  | moduleAlreadyRegistered =>
    some "Each module path is instantiated at most once per runtime."
  | compileFailed =>
    some "Fix the module source; the failure is cached until the runtime is rebuilt."
  | loadTimedOut =>
    some "The load keeps running; its outcome is cached for later requests."
  | moduleCycle =>
    some "Move the shared definitions into a module that both sides can require."
  | coverageOutputFailed => some "Check that the output directory is writable."
  | coverageConfigInvalid =>
    some "Expected \x7b\"included_modules\": [...], \"included_sources\": [...]\x7d."
  | repositoryReadFailed | executionFailed | invalidArgument | coverageFileSkipped
  | coverageDataFailed | invalidConfiguration => none

def find? (text : String) : Option ErrorCode :=
  all.find? (·.code == text)

end ErrorCode

/-- Fills the holes of a template from left to right. A hole without a value stays, and a value
is never searched for holes itself. -/
def fillHoles : List Char → List String → List Char
  | '\x7b' :: '\x7d' :: rest, v :: vs => v.toList ++ fillHoles rest vs
  | '\x7b' :: '\x7d' :: rest, [] => '\x7b' :: '\x7d' :: fillHoles rest []
  | c :: rest, vs => c :: fillHoles rest vs
  | [], _ => []

def formatTemplate (template : String) (values : List String) : String :=
  String.ofList (fillHoles template.toList values)

def ErrorCode.format (e : ErrorCode) (values : List String) : String :=
  formatTemplate e.template values

/-- A coded error as a short block for terminals: heading, message, hint. -/
def ErrorCode.render (e : ErrorCode) (message : String) : String :=
  let block := "error[" ++ e.code ++ "]: " ++ e.title ++ " (" ++ e.errorClass.heading ++ ")\n  "
    ++ message
  match e.hint with
  | some hint => block ++ "\n  hint: " ++ hint
  | none => block

end ModuleSystem
