/-! Reading the arguments of the command line. Options may stand before the name of the command and
after it; what is said after it goes before. An option that takes a value has it in the next
argument or behind an equals sign. -/

namespace ModuleSystem.CommandLine

inductive Command where
  | load (target : String)
  | modules
  | reportCoverage (dataDir outDir : String)
  deriving DecidableEq, Repr

/-- The options as far as they were given in one place. -/
structure Options where
  repositories : List String
  archives : List String
  bootstrapFirst : Bool
  coverageDir : Option String
  verbose : Bool
  deriving DecidableEq, Repr

def Options.blank : Options := ⟨[], [], false, none, false⟩

/-- Options of one place before those of another. -/
def Options.over (inner outer : Options) : Options where
  repositories := if inner.repositories.isEmpty then outer.repositories else inner.repositories
  archives := if inner.archives.isEmpty then outer.archives else inner.archives
  bootstrapFirst := inner.bootstrapFirst || outer.bootstrapFirst
  coverageDir := inner.coverageDir.or outer.coverageDir
  verbose := inner.verbose || outer.verbose

inductive Request where
  | run (options : Options) (command : Command)
  | help
  | version
  deriving DecidableEq, Repr

/-- The arguments do not make a request. -/
inductive UsageError where
  | unknownOption (text : String)
  | missingValue (option : String)
  | unexpectedValue (option : String)
  | repeated (option : String)
  | unknownCommand (text : String)
  | missingCommand
  | missingArgument (name : String)
  | extraArgument (text : String)
  deriving DecidableEq, Repr

def UsageError.message : UsageError → String
  | .unknownOption text => s!"error: unexpected argument '{text}' found"
  | .missingValue option => s!"error: a value is required for '{option}' but none was supplied"
  | .unexpectedValue option => s!"error: unexpected value for '{option}' found"
  | .repeated option => s!"error: the argument '{option}' cannot be used multiple times"
  | .unknownCommand text => s!"error: unrecognized subcommand '{text}'"
  | .missingCommand => "error: a subcommand is required but one was not provided"
  | .missingArgument name => s!"error: the argument <{name}> was not provided"
  | .extraArgument text => s!"error: unexpected argument '{text}' found"

inductive Switch where
  | bootstrapFirst
  | verbose
  deriving DecidableEq

inductive Valued where
  | repository
  | archive
  | coverageDir
  deriving DecidableEq

/-- What the name of an option stands for. -/
inductive OptionKind where
  | switch (s : Switch)
  | valued (v : Valued)
  | help
  | version

/-- Long names. The version is only asked for before the name of a command. -/
def longOption? (top : Bool) : String → Option OptionKind
  | "repo" => some (.valued .repository)
  | "archive" => some (.valued .archive)
  | "coverage-data" => some (.valued .coverageDir)
  | "bootstrap-first" => some (.switch .bootstrapFirst)
  | "verbose" => some (.switch .verbose)
  | "help" => some .help
  | "version" => if top then some .version else none
  | _ => none

def shortOption? (top : Bool) : Char → Option OptionKind
  | 'v' => some (.switch .verbose)
  | 'h' => some .help
  | 'V' => if top then some .version else none
  | _ => none

/-- A switch may be set once in each place. -/
def Options.set (o : Options) (text : String) : Switch → Except UsageError Options
  | .bootstrapFirst =>
    if o.bootstrapFirst then .error (.repeated text) else .ok { o with bootstrapFirst := true }
  | .verbose => if o.verbose then .error (.repeated text) else .ok { o with verbose := true }

/-- Values are paths and must not be empty. -/
def Options.give (o : Options) (text value : String) : Valued → Except UsageError Options
  | .repository =>
    if value.isEmpty then .error (.missingValue text)
    else .ok { o with repositories := o.repositories ++ [value] }
  | .archive =>
    if value.isEmpty then .error (.missingValue text)
    else .ok { o with archives := o.archives ++ [value] }
  | .coverageDir =>
    if value.isEmpty then .error (.missingValue text)
    else if o.coverageDir.isSome then .error (.repeated text)
    else .ok { o with coverageDir := some value }

/-- Whether an argument is an option rather than a value; a single dash is a value. -/
def isOption (arg : String) : Bool := arg.startsWith "-" && arg ≠ "-"

/-- What one place comes to: its options and its other arguments, or a request on its own. -/
inductive Place where
  | plain (options : Options) (args : List String)
  | request (r : Request)

/-- Single-letter options behind one dash. -/
def shortOptions (top : Bool) (text : String) : List Char → Options →
    Except UsageError (Sum Request Options)
  | [], o => .ok (.inr o)
  | c :: rest, o =>
    match shortOption? top c with
    | some .help => .ok (.inl .help)
    | some .version => .ok (.inl .version)
    | some (.switch s) => do shortOptions top text rest (← o.set text s)
    | _ => .error (.unknownOption text)

/-- Splits a long option at its equals sign. -/
def splitLong (arg : String) : String × Option String :=
  let (name, value) := (arg.toList.drop 2).span (· ≠ '=')
  (String.ofList name, if value.isEmpty then none else some (String.ofList (value.drop 1)))

/-- Reads options up to the end. `awaiting` is an option whose value comes next. Other arguments are
kept; at the top the first of them names the command, and the arguments from it on are given back.
After two dashes nothing is an option. -/
def readPlace (top : Bool) : Option (String × Valued) → List String → Options → List String →
    Except UsageError Place
  | some (text, _), [], _, _ => .error (.missingValue text)
  | some (text, v), value :: rest, o, args =>
    if isOption value then .error (.missingValue text)
    else
      match o.give text value v with
      | .ok o => readPlace top none rest o args
      | .error e => .error e
  | none, [], o, args => .ok (.plain o args.reverse)
  | none, arg :: rest, o, args =>
    if arg = "--" then
      match top, rest with
      | true, text :: _ => .error (.extraArgument text)
      | _, _ => .ok (.plain o (args.reverse ++ rest))
    else if arg.startsWith "--" then
      let (name, value) := splitLong arg
      match longOption? top name, value with
      | some .help, none => .ok (.request .help)
      | some .version, none => .ok (.request .version)
      | some (.switch s), none =>
        match o.set arg s with
        | .ok o => readPlace top none rest o args
        | .error e => .error e
      | some (.valued v), some value =>
        match o.give arg value v with
        | .ok o => readPlace top none rest o args
        | .error e => .error e
      | some (.valued v), none => readPlace top (some (arg, v)) rest o args
      | some _, some _ => .error (.unexpectedValue arg)
      | none, _ => .error (.unknownOption arg)
    else if isOption arg then
      match shortOptions top arg (arg.toList.drop 1) o with
      | .ok (.inl request) => .ok (.request request)
      | .ok (.inr o) => readPlace top none rest o args
      | .error e => .error e
    else if top then .ok (.plain o (arg :: rest))
    else readPlace top none rest o (arg :: args)

def commandOf : String → List String → Except UsageError Command
  | "load", [target] => .ok (.load target)
  | "load", [] => .error (.missingArgument "TARGET")
  | "modules", [] => .ok .modules
  | "report-coverage", [dataDir, outDir] =>
    if dataDir.isEmpty then .error (.missingArgument "DATA_DIR")
    else if outDir.isEmpty then .error (.missingArgument "OUTPUT_DIR")
    else .ok (.reportCoverage dataDir outDir)
  | "report-coverage", [] => .error (.missingArgument "DATA_DIR")
  | "report-coverage", [_] => .error (.missingArgument "OUTPUT_DIR")
  | "load", _ :: extra :: _ | "modules", extra :: _ | "report-coverage", _ :: _ :: extra :: _ =>
    .error (.extraArgument extra)
  | name, _ => .error (.unknownCommand name)

def commandNames : List String := ["load", "modules", "report-coverage"]

/-- The commands, and help about one of them. -/
def readCommand (options : Options) (name : String) (args : List String) :
    Except UsageError Request :=
  if name = "help" then
    match args with
    | [] => .ok .help
    | [topic] => if commandNames.contains topic then .ok .help else .error (.unknownCommand topic)
    | _ :: extra :: _ => .error (.extraArgument extra)
  else if !commandNames.contains name then .error (.unknownCommand name)
  else do
    match ← readPlace false none args Options.blank [] with
    | .request r => return r
    | .plain inner args => return .run (inner.over options) (← commandOf name args)

/-- Reads all arguments. -/
def parse (args : List String) : Except UsageError Request := do
  match ← readPlace true none args Options.blank [] with
  | .request r => return r
  | .plain _ [] => throw .missingCommand
  | .plain options (name :: args) => readCommand options name args

end ModuleSystem.CommandLine
