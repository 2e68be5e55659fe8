import ModuleSystem.CommandLine.Arguments
import ModuleSystem.Coverage.Page
import ModuleSystem.Loading.Setup

namespace ModuleSystem.CommandLine

open Coverage

/-- What a run leaves behind besides files. -/
structure Output where
  code : Nat
  stdout : String
  stderr : String
  deriving DecidableEq, Repr

def succeed (stdout : String) : Output := ⟨0, stdout, ""⟩

/-- A failure is shown as a block; what was printed before it stays. -/
def fail (stdout block : String) : Output := ⟨1, stdout, block ++ "\n"⟩

def Options.setup (o : Options) (environment : String → Option String) : Setup :=
  let repositories := o.repositories.map RepositoryChoice.directory
    ++ o.archives.map RepositoryChoice.archive
  Setup.withEnvironment ⟨repositories, o.bootstrapFirst, o.coverageDir, none⟩ environment

/-- Each text on a line of its own. -/
def lines (texts : List String) : String := String.join (texts.map (· ++ "\n"))

/-- A target that looks like a script or is a file is run, another one is loaded as a module. -/
def isScript (files : FileTree) (target : String) : Bool :=
  Path.extension? target == some "loam" || files.isFile target

/-- Runs a script on a new top level; the answer holds a line for each of its values. -/
def runScript (l : Loader) (files : FileTree) (path : String) : Loader × Except LoadError String :=
  let (l, ending) := l.load files Bootstrap.baseId
  match ending.map (Loader.outcomeOf Bootstrap.baseId) with
  | some (.ok base) =>
    let (l, _, result) := (TopLevel.seeded base).evalFile l files path
    match result with
    | some (.values vs) => (l, .ok (lines (vs.map Value.text)))
    | some (.failed e) => (l, .error e)
    | _ => (l, .error (.execution path none "the script stopped without a result"))
  | some (.error e) => (l, .error e)
  | none => (l, .error (.timedOut Bootstrap.baseId 0))

/-- Loads a module; the answer holds what it provides. -/
def loadModule (l : Loader) (files : FileTree) (path : String) :
    Loader × Except LoadError String :=
  match ModuleId.parse path with
  | .error e => (l, .error (.invalidPath e))
  | .ok id =>
    let (l, ending) := l.load files id
    let outcome := (ending.map (Loader.outcomeOf id)).getD (.error (.timedOut id 0))
    (l, outcome.map fun m => lines [(Value.struct none m.exports).text])

/-- Ends a run: what was recorded is written, and a failure to do so is reported. -/
def finish (l : Loader) (stdout : String) : StateM FileTree Output := do
  match l.registry.recorder.session? with
  | none => return succeed stdout
  | some session =>
    let (session, result) ← session.flush
    session.close
    match result with
    | .ok _ => return succeed stdout
    | .error e => return fail stdout e.render

/-- Ends a run that failed. What was recorded is written if it can be. -/
def abort (l : Loader) (block : String) : StateM FileTree Output := do
  if let some session := l.registry.recorder.session? then session.close
  return fail "" block

def load (o : Options) (environment : String → Option String) (runId target : String) :
    StateM FileTree Output := do
  match ← ((o.setup environment).build runId [] []).run with
  | .error e => return fail "" e.render
  | .ok l =>
    let files ← get
    let (l, result) :=
      if isScript files target then runScript l files target else loadModule l files target
    match result with
    | .ok stdout => finish l stdout
    | .error e => abort l e.render

def modules (o : Options) (environment : String → Option String) (runId : String) :
    StateM FileTree Output := do
  match ← ((o.setup environment).build runId [] []).run with
  | .error e => return fail "" e.render
  | .ok l =>
    let ids := l.chain.collect (← get) fun _ => true
    return succeed (lines (ids.map ModuleId.text))

def reportCoverage (environment : String → Option String) (dataDir outDir : String) :
    StateM FileTree Output := do
  match Report.merge (← get) dataDir with
  | .error e => return fail "" e.render
  | .ok report =>
    match ← (Page.save report outDir).run with
    | .error e => return fail "" e.render
    | .ok () =>
      return succeed (Summary.text report (Summary.coloursEnabled environment)
        ++ "\nreport: " ++ Page.pagePath outDir ++ "\n")

/-- The paths that a request reads or writes, except for the sources shown in a report. -/
def Request.paths (environment : String → Option String) : Request → List String
  | .run _ (.reportCoverage dataDir outDir) => [dataDir, outDir]
  | .run o command =>
    let setup := o.setup environment
    let opened := setup.repositories.filterMap fun
      | .directory path | .archive path => some path
      | .ready _ => none
    let target := match command with
      | .load target => [target]
      | _ => []
    opened ++ setup.coverageDir.toList ++ target
  | .help | .version => []

/-- The sources that a report shows. -/
def Request.sources (tree : FileTree) : Request → List String
  | .run _ (.reportCoverage dataDir _) =>
    match Report.merge tree dataDir with
    | .ok report => report.units.map (·.source)
    | .error _ => []
  | _ => []

def versionText : String := "loam 0.1.0\n"

def helpText : String := lines [
  "Module runtime and coverage tools for loam",
  "",
  "Usage: loam [OPTIONS] <COMMAND>",
  "",
  "Commands:",
  "  load             Run a `.loam` script, or load a module and print what it provides",
  "  modules          List every module the configured repositories offer",
  "  report-coverage  Merge coverage data and write an HTML and JSON report",
  "  help             Print this message or the help of the given subcommand(s)",
  "",
  "Options:",
  "      --repo <DIR>           Repository directory, consulted in the order given",
  "      --archive <FILE>       Tar archive repository, consulted after every --repo",
  "      --bootstrap-first      Consult the built-in library before user repositories",
  "      --coverage-data <DIR>  Record coverage into this directory",
  "  -v, --verbose              Debug logging on stderr",
  "  -h, --help                 Print help",
  "  -V, --version              Print version"]

/-- Runs the command line. The run id names the hit file of this run. -/
def run (environment : String → Option String) (runId : String) (args : List String) :
    StateM FileTree Output := do
  match parse args with
  | .error e => return ⟨2, "", e.message ++ "\n"⟩
  | .ok .help => return succeed helpText
  | .ok .version => return succeed versionText
  | .ok (.run o (.load target)) => load o environment runId target
  | .ok (.run o .modules) => modules o environment runId
  | .ok (.run _ (.reportCoverage dataDir outDir)) => reportCoverage environment dataDir outDir

end ModuleSystem.CommandLine
