import ModuleSystem.Loading.Step

/-! Running threads until none of them can go on. Each module is built at most once and each form
runs at most once, so the number of steps is bounded by the sizes of the sources and of what the
threads have left to do. -/

namespace ModuleSystem

def FileTree.byteCount (tree : FileTree) : Nat :=
  tree.entries.foldr (fun e n => (match e.2 with | .file bytes => bytes.length | _ => 0) + n) 0

def Repository.byteCount : Repository → Nat
  | .directory _ => 0
  | .resources r | .bootstrap r => r.resources.foldr (·.2.length + ·) 0

/-- The bytes of all sources that could be read. -/
def Surroundings.byteCount (s : Surroundings) : Nat :=
  s.chain.foldr (·.byteCount + ·) s.files.byteCount

/-- A form, and the modules it requires. -/
def formSize (form : Form.Located) : Nat :=
  match form.statement with
  | .require paths => 1 + paths.length
  | _ => 1

def Body.size (b : Body) : Nat := b.rest.foldr (formSize · + ·) (1 + b.pending.length)

def Thread.size (t : Thread) : Nat := t.stack.foldr (·.size + ·) 0

/-- More steps than threads of this size can take. -/
def stepBound (s : Surroundings) (size : Nat) : Nat :=
  let n := s.byteCount + size + 2
  8 * n * n + 8 * n

/-- Runs one thread while it can go on. -/
def runSteps (s : Surroundings) (me : ThreadId) : Nat → Registry → Thread → Registry × Thread
  | 0, r, t => (r, t)
  | fuel + 1, r, t =>
    match step s me r t with
    | some (r, t) => runSteps s me fuel r t
    | none => (r, t)

def runThread (s : Surroundings) (me : ThreadId) (r : Registry) (t : Thread) :
    Registry × Thread :=
  runSteps s me (stepBound s t.size) r t

abbrev Threads := List (ThreadId × Thread)

/-- One step of the first thread that can go on. -/
def stepFirst (s : Surroundings) (r : Registry) : Threads → Option (Registry × Threads)
  | [] => none
  | (me, t) :: rest =>
    match step s me r t with
    | some (r, t) => some (r, (me, t) :: rest)
    | none =>
      match stepFirst s r rest with
      | some (r, rest) => some (r, (me, t) :: rest)
      | none => none

def settleSteps (s : Surroundings) : Nat → Registry → Threads → Registry × Threads
  | 0, r, threads => (r, threads)
  | fuel + 1, r, threads =>
    match stepFirst s r threads with
    | some (r, threads) => settleSteps s fuel r threads
    | none => (r, threads)

/-- Runs all threads until each of them has ended or cannot go on. -/
def settle (s : Surroundings) (r : Registry) (threads : Threads) : Registry × Threads :=
  let size := threads.foldr (fun t n => 1 + t.2.size + n) 0
  settleSteps s (stepBound s size) r threads

end ModuleSystem
