import ModuleSystem.Loading.Run

/-! The loader: a chain of repositories, what has been loaded from it, and the threads that are
still busy. Asking for a module runs on the caller's thread; other threads go on when what holds
them back is released. -/

namespace ModuleSystem

structure Loader where
  chain : Chain
  registry : Registry
  threads : Threads
  /-- The next unused thread. -/
  fresh : ThreadId
  held : List String
  broken : List String

/-- The caller's own thread. -/
def mainThread : ThreadId := 0

namespace Loader

def create (chain : Chain) (recorder : Recorder) (held broken : List String) : Loader :=
  ⟨chain, .empty recorder, [], mainThread + 1, held, broken⟩

def surroundings (l : Loader) (files : FileTree) : Surroundings :=
  ⟨files, l.chain, l.held, l.broken⟩

/-- Runs something on the caller's thread. There is no ending if it waits for a thread that is held
back. -/
def runMain (l : Loader) (files : FileTree) (t : Thread) : Loader × Option Ending :=
  let (registry, t) := runThread (l.surroundings files) mainThread l.registry t
  ({ l with registry }, t.ending?)

/-- The ending of the load of a module. -/
def load (l : Loader) (files : FileTree) (id : ModuleId) : Loader × Option Ending :=
  l.runMain files (.load id)

/-- Loads a module by its path; a single name without slashes will do. -/
def loadPath (l : Loader) (files : FileTree) (path : String) : Loader × Option Ending :=
  match ModuleId.parse path with
  | .ok id => l.load files id
  | .error e => (l, some (.loaded (.error (.invalidPath e))))

/-- Runs a script. It does not begin unless it compiles. -/
def runScript (l : Loader) (files : FileTree) (name text : String) (scope : Namespace) :
    Loader × Option Ending :=
  match l.registry.compile (.script name) name text with
  | (registry, .error e) => ({ l with registry }, some (.ran scope (.error e)))
  | (registry, .ok program) =>
    { l with registry }.runMain files (.body (.start (.script name) name scope program))

/-- Publishes a module that was built from bindings. -/
def register (l : Loader) (id : ModuleId) (module : Prebuilt) : Loader × Outcome :=
  let (registry, outcome) := l.registry.register (module.instantiate id "<host>")
  ({ l with registry }, outcome)

def settle (l : Loader) (files : FileTree) : Loader :=
  let (registry, threads) := ModuleSystem.settle (l.surroundings files) l.registry l.threads
  { l with registry, threads }

/-- Starts a thread that loads a module. -/
def spawn (l : Loader) (files : FileTree) (id : ModuleId) : Loader × ThreadId :=
  let l' := { l with threads := l.threads ++ [(l.fresh, Thread.load id)], fresh := l.fresh + 1 }
  (l'.settle files, l.fresh)

/-- Lets the bodies of a unit begin. -/
def release (l : Loader) (files : FileTree) (unit : String) : Loader :=
  { l with held := l.held.filter (· ≠ unit) }.settle files

def ending? (l : Loader) (thread : ThreadId) : Option Ending :=
  (l.threads.lookup thread).bind Thread.ending?

/-- What is told of a load that has ended. -/
def outcomeOf (id : ModuleId) : Ending → Outcome
  | .loaded outcome => outcome
  | _ => .error (.execution id.text none "the load thread stopped without a result")

/-- Loads a module on a thread of its own and gives up when it does not end by itself. The load goes
on, and its outcome is kept for later. -/
def loadWithin (l : Loader) (files : FileTree) (id : ModuleId) (milliseconds : Nat) :
    Loader × Outcome :=
  let (l, thread) := l.spawn files id
  (l, ((l.ending? thread).map (outcomeOf id)).getD (.error (.timedOut id milliseconds)))

end Loader
end ModuleSystem
