import ModuleSystem.Loading.TopLevel
import ModuleSystem.Proofs.Loading.Acts

namespace ModuleSystem

/-- The operations of a runtime, which one thread asks for one after the other. -/
inductive Call where
  | load (id : ModuleId)
  | loadPath (path : String)
  | loadWithin (id : ModuleId) (milliseconds : Nat)
  | register (id : ModuleId) (module : Prebuilt)
  /-- A top level that sees the exports of a module. -/
  | topLevel (base : ModuleId)
  | emptyTopLevel
  | eval (top : Nat) (name text : String)
  | loadFile (top : Nat) (path : String)
  | define (top : Nat) (name : String) (value : Value)
  | lookup (id : ModuleId)
  | state (id : ModuleId)
  | loadedModules

/-- What is told of an operation. -/
inductive Reply where
  | ending (e : Option Ending)
  | outcome (o : Outcome)
  | script (result : Option TopLevel.ScriptResult)
  | found (m : Option ModuleInstance)
  | state (s : ModuleState)
  | modules (ids : List ModuleId)
  | nothing

/-- A loader, and the top levels that were made, in their order. -/
structure Runtime where
  loader : Loader
  tops : List TopLevel

namespace Runtime

/-- Nothing is held back, so that whatever begins can come to its end. -/
def create (chain : Chain) (recorder : Recorder) (broken : List String) : Runtime :=
  ⟨.create chain recorder [] broken, []⟩

def evalOn (rt : Runtime) (top : Nat)
    (run : TopLevel → Loader × TopLevel × Option TopLevel.ScriptResult) : Runtime × Reply :=
  match rt.tops[top]? with
  | none => (rt, .nothing)
  | some t =>
    let (loader, t, result) := run t
    (⟨loader, rt.tops.set top t⟩, .script result)

def call (rt : Runtime) (files : FileTree) : Call → Runtime × Reply
  | .load id =>
    let (loader, e) := rt.loader.load files id
    ({ rt with loader }, .ending e)
  | .loadPath path =>
    let (loader, e) := rt.loader.loadPath files path
    ({ rt with loader }, .ending e)
  | .loadWithin id milliseconds =>
    let (loader, o) := rt.loader.loadWithin files id milliseconds
    ({ rt with loader }, .outcome o)
  | .register id module =>
    let (loader, o) := rt.loader.register id module
    ({ rt with loader }, .outcome o)
  | .topLevel base =>
    let (loader, e) := rt.loader.load files base
    let tops := match e with
      | some (.loaded (.ok m)) => rt.tops ++ [.seeded m]
      | _ => rt.tops
    (⟨loader, tops⟩, .ending e)
  | .emptyTopLevel => ({ rt with tops := rt.tops ++ [.empty] }, .nothing)
  | .eval top name text => rt.evalOn top fun t => t.eval rt.loader files name text
  | .loadFile top path => rt.evalOn top fun t => t.evalFile rt.loader files path
  | .define top name value =>
    ({ rt with tops := rt.tops.modify top (·.define name value) }, .nothing)
  | .lookup id => (rt, .found (rt.loader.registry.lookup id))
  | .state id => (rt, .state (rt.loader.registry.state id))
  | .loadedModules => (rt, .modules rt.loader.registry.loaded)

/-- Operations in a row, each with the files that it meets. -/
def run (rt : Runtime) : List (FileTree × Call) → Runtime
  | [] => rt
  | (files, call) :: rest => run (rt.call files call).1 rest

end Runtime

/-- The module that an operation loads, if it loads one. -/
def Call.target? : Call → Option ModuleId
  | .load id | .loadWithin id _ | .topLevel id => some id
  | .loadPath path => (ModuleId.parse path).toOption
  | _ => none

/-- The outcome that a reply tells of. -/
def Reply.outcome? : Reply → Option Outcome
  | .ending (some (.loaded o)) | .outcome o => some o
  | _ => none

/-- The acts of the first thread that can go on. -/
def firstActs (s : Surroundings) (r : Registry) : Threads → List Act
  | [] => []
  | (me, t) :: rest =>
    match step s me r t with
    | some _ => stepActs s r t
    | none => firstActs s r rest

def settleActs (s : Surroundings) : Nat → Registry → Threads → List Act
  | 0, _, _ => []
  | fuel + 1, r, threads =>
    match stepFirst s r threads with
    | some (r', threads') => firstActs s r threads ++ settleActs s fuel r' threads'
    | none => []

namespace Loader

def mainActs (l : Loader) (files : FileTree) (t : Thread) : List Act :=
  runActs (l.surroundings files) mainThread (stepBound (l.surroundings files) t.size) l.registry t

def scriptActs (l : Loader) (files : FileTree) (name text : String) (scope : Namespace) :
    List Act :=
  compileActs (.script name) name text ++
    match l.registry.compile (.script name) name text with
    | (_, .error _) => []
    | (registry, .ok p) =>
      { l with registry }.mainActs files (.body (.start (.script name) name scope p))

def spawnActs (l : Loader) (files : FileTree) (id : ModuleId) : List Act :=
  let threads := l.threads ++ [(l.fresh, Thread.load id)]
  let size := threads.foldr (fun t n => 1 + t.2.size + n) 0
  let s := l.surroundings files
  settleActs s (stepBound s size) l.registry threads

/-- A module that is registered has its place claimed, if it gets it. -/
def registerActs (l : Loader) (id : ModuleId) : List Act :=
  match l.registry.cell? id with
  | some _ => []
  | none => [.claim id]

end Loader

namespace Runtime

def evalActs (rt : Runtime) (files : FileTree) (top : Nat) (name text : String) : List Act :=
  match rt.tops[top]? with
  | none => []
  | some t => rt.loader.scriptActs files name text t.scope

def callActs (rt : Runtime) (files : FileTree) : Call → List Act
  | .load id | .topLevel id => rt.loader.mainActs files (.load id)
  | .loadPath path =>
    match ModuleId.parse path with
    | .ok id => rt.loader.mainActs files (.load id)
    | .error _ => []
  | .loadWithin id _ => rt.loader.spawnActs files id
  | .register id _ => rt.loader.registerActs id
  | .eval top name text => rt.evalActs files top name text
  | .loadFile top path =>
    match files.readText path with
    | .ok text => rt.evalActs files top path text
    | .error _ => []
  | _ => []

/-- All that operations in a row claim, have compiled and start. -/
def acts (rt : Runtime) : List (FileTree × Call) → List Act
  | [] => []
  | (files, call) :: rest => rt.callActs files call ++ acts (rt.call files call).1 rest

end Runtime

namespace Loader

/-- No thread has anything left to do. -/
structure Idle (l : Loader) : Prop where
  rested : l.registry.Rested
  unheld : l.held = []
  ended : ∀ p ∈ l.threads, p.1 < l.fresh ∧ ∃ e, p.2 = ⟨[], .ended e⟩

/-- What an operation of a loader does, as far as its outcomes and its acts are concerned. -/
structure Serves (l l' : Loader) (acts : List Act) : Prop where
  idle : l'.Idle
  fixed : l'.chain = l.chain ∧ l'.broken = l.broken
  kept : ∀ id o, l.registry.cell? id = some (.done o) → l'.registry.cell? id = some (.done o)
  accounts : ∀ log, l.registry.Accounts log → l'.registry.Accounts (log ++ acts)

namespace Serves

theorem refl {l : Loader} (idle : l.Idle) : l.Serves l [] :=
  ⟨idle, ⟨rfl, rfl⟩, fun _ _ => id, fun log accounts => by rwa [List.append_nil]⟩

end Serves

/-- All that the caller's thread does. -/
def mainRun (l : Loader) (files : FileTree) (t : Thread) : Registry × Thread :=
  runSteps (l.surroundings files) mainThread (stepBound (l.surroundings files) t.size) l.registry t

theorem runMain_eq (l : Loader) (files : FileTree) (t : Thread) :
    l.runMain files t = ({ l with registry := (l.mainRun files t).1 },
      (l.mainRun files t).2.ending?) := rfl

theorem Idle.withRegistry {l : Loader} (idle : l.Idle) {r : Registry} (rested : r.Rested) :
    Idle { l with registry := r } := ⟨rested, idle.unheld, idle.ended⟩

namespace Idle

variable {l : Loader} {goal : Option ModuleId} {t : Thread}

theorem mainRun (idle : l.Idle) (files : FileTree) (begins : t.Begins goal) :
    (l.mainRun files t).1.Rested ∧ ∃ e, (l.mainRun files t).2 = ⟨[], .ended e⟩ ∧ e.Fits goal :=
  idle.rested.run idle.unheld begins (Nat.le_refl _)

theorem runMain (idle : l.Idle) (files : FileTree) (begins : t.Begins goal) :
    l.Serves (l.runMain files t).1 (l.mainActs files t) ∧
      ∃ e, (l.runMain files t).2 = some e ∧ e.Fits goal := by
  obtain ⟨rested, e, ended, fits⟩ := idle.mainRun files begins
  rw [runMain_eq]
  refine ⟨⟨idle.withRegistry rested, ⟨rfl, rfl⟩, fun id o done => ?_, fun log accounts => ?_⟩, e,
    ?_, fits⟩
  · exact idle.rested.done_run begins _ done
  · exact accounts.run idle.rested begins _
  · rw [ended]
    rfl

theorem load (idle : l.Idle) (files : FileTree) (id : ModuleId) :
    l.Serves (l.load files id).1 (l.mainActs files (.load id)) :=
  (idle.runMain files (.load id)).1

theorem runScript (idle : l.Idle) (files : FileTree) (name text : String) (scope : Namespace) :
    l.Serves (l.runScript files name text scope).1 (l.scriptActs files name text scope) := by
  obtain ⟨cells, waits⟩ := l.registry.compile_quiet (.script name) name text
  have journal := l.registry.journal_compile (.script name) name text
  rw [Loader.runScript, scriptActs]
  generalize l.registry.compile (.script name) name text = out at cells waits journal
  obtain ⟨r, result⟩ := out
  have rested : r.Rested := idle.rested.congr cells waits
  have idle' := idle.withRegistry rested
  have accounts : ∀ log, l.registry.Accounts log →
      r.Accounts (log ++ compileActs (.script name) name text) := by
    intro log h
    refine ⟨(h.lists.script name name text).congr (Registry.claimed_congr cells), ?_⟩
    rw [journal, h.journal, List.flatMap_append]
  have kept : ∀ id o, l.registry.cell? id = some (.done o) → r.cell? id = some (.done o) := by
    intro id o done
    rwa [Registry.cell?_congr cells]
  cases result with
  | error e =>
    refine ⟨idle', ⟨rfl, rfl⟩, kept, fun log h => ?_⟩
    rw [List.append_nil]
    exact accounts log h
  | ok p =>
    have unit : (Body.start (.script name) name scope p).unit = .script name := rfl
    obtain ⟨serves, _⟩ := idle'.runMain files (.script unit rfl)
    refine ⟨serves.idle, serves.fixed, fun id o done => serves.kept id o (kept id o done),
      fun log h => ?_⟩
    rw [← List.append_assoc]
    exact serves.accounts _ (accounts log h)

theorem register (idle : l.Idle) (id : ModuleId) (module : Prebuilt) :
    l.Serves (l.register id module).1 (l.registerActs id) := by
  rw [Loader.register, registerActs]
  cases found : l.registry.cell? id with
  | some c =>
    have found : l.registry.cell? (module.instantiate id "<host>").id = some c := found
    rw [Registry.register_of_some found]
    exact .refl idle
  | none =>
    have found : l.registry.cell? (module.instantiate id "<host>").id = none := found
    have cells : ∀ x, ((l.registry.register (module.instantiate id "<host>")).1).cell? x =
        if x = (module.instantiate id "<host>").id then
          some (.done (.ok (module.instantiate id "<host>"))) else l.registry.cell? x := by
      intro x
      rw [Registry.register_of_none found]
      exact Registry.lookup_push found _ x
    have keys := Registry.claimed_register found
    refine ⟨idle.withRegistry ⟨fun x owner loading => ?_, fun me => ?_, ?_⟩, ⟨rfl, rfl⟩,
      fun x o done => ?_, fun log h => ?_⟩
    · rw [cells] at loading
      split at loading
      · cases loading
      · exact idle.rested.done x owner loading
    · rw [Registry.register_of_none found]
      exact idle.rested.free me
    · rw [keys]
      exact Registry.nodup_push idle.rested.keys found
    · dsimp only
      rw [cells, if_neg]
      · exact done
      · rintro rfl
        exact absurd (found.symm.trans done) (by simp)
    · refine ⟨h.lists.claim found keys, ?_⟩
      dsimp only
      rw [Registry.register_of_none found, h.journal]
      simp [Act.events]

end Idle
end Loader

theorem stepFirst_last {s : Surroundings} {r : Registry} {me : ThreadId} {t : Thread}
    {old : Threads} (ended : ∀ p ∈ old, ∃ e, p.2 = ⟨[], .ended e⟩) :
    stepFirst s r (old ++ [(me, t)]) =
      (step s me r t).map fun next => (next.1, old ++ [(me, next.2)]) := by
  induction old with
  | nil =>
    rw [List.nil_append, stepFirst]
    cases step s me r t <;> rfl
  | cons first rest ih =>
    obtain ⟨x, u⟩ := first
    obtain ⟨e, rfl⟩ := ended (x, u) List.mem_cons_self
    have stuck : step s x r ⟨[], .ended e⟩ = none := rfl
    rw [List.cons_append, stepFirst, stuck, ih fun p mem => ended p (List.mem_cons_of_mem _ mem)]
    cases step s me r t <;> rfl

theorem firstActs_last {s : Surroundings} {r r' : Registry} {me : ThreadId} {t t' : Thread}
    {old : Threads} (ended : ∀ p ∈ old, ∃ e, p.2 = ⟨[], .ended e⟩)
    (moved : step s me r t = some (r', t')) :
    firstActs s r (old ++ [(me, t)]) = stepActs s r t := by
  induction old with
  | nil => rw [List.nil_append, firstActs, moved]
  | cons first rest ih =>
    obtain ⟨x, u⟩ := first
    obtain ⟨e, rfl⟩ := ended (x, u) List.mem_cons_self
    have stuck : step s x r ⟨[], .ended e⟩ = none := rfl
    rw [List.cons_append, firstActs, stuck]
    exact ih fun p mem => ended p (List.mem_cons_of_mem _ mem)

theorem settleSteps_last {s : Surroundings} {me : ThreadId} {old : Threads}
    (ended : ∀ p ∈ old, ∃ e, p.2 = ⟨[], .ended e⟩) (fuel : Nat) (r : Registry) (t : Thread) :
    settleSteps s fuel r (old ++ [(me, t)]) =
        ((runSteps s me fuel r t).1, old ++ [(me, (runSteps s me fuel r t).2)]) ∧
      settleActs s fuel r (old ++ [(me, t)]) = runActs s me fuel r t := by
  induction fuel generalizing r t with
  | zero => exact ⟨rfl, rfl⟩
  | succ fuel ih =>
    rw [settleSteps, settleActs, runSteps, runActs, stepFirst_last ended]
    cases moved : step s me r t with
    | none => exact ⟨rfl, rfl⟩
    | some next =>
      obtain ⟨steps, acts⟩ := ih next.1 next.2
      dsimp only [Option.map_some]
      rw [firstActs_last ended moved, steps, acts]
      exact ⟨rfl, rfl⟩

namespace Loader

theorem size_le_threads (old : Threads) (me : ThreadId) (t : Thread) :
    t.size ≤ (old ++ [(me, t)]).foldr (fun t n => 1 + t.2.size + n) 0 := by
  induction old with
  | nil => simp
  | cons first rest ih =>
    rw [List.cons_append, List.foldr_cons]
    omega

/-- All that a thread of its own does for a module. -/
def spawnRun (l : Loader) (files : FileTree) (id : ModuleId) : Registry × Thread :=
  let threads := l.threads ++ [(l.fresh, Thread.load id)]
  let size := threads.foldr (fun t n => 1 + t.2.size + n) 0
  let s := l.surroundings files
  runSteps s l.fresh (stepBound s size) l.registry (.load id)

namespace Idle

variable {l : Loader}

theorem spawn_eq (idle : l.Idle) (files : FileTree) (id : ModuleId) :
    (l.spawn files id).1 = { l with
      registry := (l.spawnRun files id).1
      threads := l.threads ++ [(l.fresh, (l.spawnRun files id).2)]
      fresh := l.fresh + 1 } := by
  have ended : ∀ p ∈ l.threads, ∃ e, p.2 = ⟨[], .ended e⟩ := fun p mem => (idle.ended p mem).2
  have surroundings : ∀ (threads : Threads) (fresh : ThreadId),
      Loader.surroundings { l with threads, fresh } files = l.surroundings files :=
    fun _ _ => rfl
  simp only [Loader.spawn, Loader.settle, ModuleSystem.settle, surroundings,
    (settleSteps_last ended _ _ _).1]
  rfl

theorem spawnActs_eq (idle : l.Idle) (files : FileTree) (id : ModuleId) :
    ∃ fuel, l.spawnActs files id =
        runActs (l.surroundings files) l.fresh fuel l.registry (.load id) ∧
      l.spawnRun files id = runSteps (l.surroundings files) l.fresh fuel l.registry (.load id) :=
  ⟨_, (settleSteps_last (fun p mem => (idle.ended p mem).2) _ _ _).2, rfl⟩

theorem spawnRun (idle : l.Idle) (files : FileTree) (id : ModuleId) :
    (l.spawnRun files id).1.Rested ∧
      ∃ e, (l.spawnRun files id).2 = ⟨[], .ended e⟩ ∧ e.Fits (some id) :=
  idle.rested.run idle.unheld (.load id) (size_le_threads l.threads l.fresh _)

theorem spawn (idle : l.Idle) (files : FileTree) (id : ModuleId) :
    l.Serves (l.spawn files id).1 (l.spawnActs files id) := by
  obtain ⟨rested, e, ended, _⟩ := idle.spawnRun files id
  obtain ⟨fuel, acts, steps⟩ := idle.spawnActs_eq files id
  rw [idle.spawn_eq]
  refine ⟨⟨rested, idle.unheld, fun p mem => ?_⟩, ⟨rfl, rfl⟩, fun x o done => ?_,
    fun log h => ?_⟩
  · obtain old | new := List.mem_append.mp mem
    · obtain ⟨lt, ended⟩ := idle.ended p old
      exact ⟨Nat.lt_succ_of_lt lt, ended⟩
    · rw [List.mem_singleton.mp new]
      exact ⟨Nat.lt_succ_self _, e, ended⟩
  · dsimp only
    rw [steps]
    exact idle.rested.done_run (.load id) _ done
  · dsimp only
    rw [acts, steps]
    exact h.run idle.rested (.load id) _

/-- The thread of its own is found by its number, which no other thread has. -/
theorem spawn_ending (idle : l.Idle) (files : FileTree) (id : ModuleId) :
    (l.spawn files id).1.ending? (l.spawn files id).2 = (l.spawnRun files id).2.ending? := by
  have number : (l.spawn files id).2 = l.fresh := rfl
  have other : l.threads.lookup l.fresh = none := by
    refine List.lookup_eq_none_iff.mpr fun p mem => bne_iff_ne.mpr ?_
    exact Nat.ne_of_gt (idle.ended p mem).1
  rw [idle.spawn_eq, number, ending?, List.lookup_append, other]
  simp

end Idle
end Loader

namespace Runtime

theorem idle_create (chain : Chain) (recorder : Recorder) (broken : List String) :
    (create chain recorder broken).loader.Idle := by
  refine ⟨⟨fun id owner loading => ?_, fun _ => rfl, List.nodup_nil⟩, rfl, fun p mem => ?_⟩
  · cases loading
  · cases mem

variable {rt : Runtime}

theorem serves_eval (idle : rt.loader.Idle) (files : FileTree) (top : Nat) (name text : String) :
    rt.loader.Serves (rt.evalOn top fun t => t.eval rt.loader files name text).1.loader
      (rt.evalActs files top name text) := by
  unfold evalOn evalActs
  cases rt.tops[top]? with
  | none => exact .refl idle
  | some t => exact idle.runScript files name text t.scope

theorem serves_call (idle : rt.loader.Idle) (files : FileTree) (call : Call) :
    rt.loader.Serves (rt.call files call).1.loader (rt.callActs files call) := by
  cases call with
  | load id | topLevel id => exact idle.load files id
  | loadPath path =>
    simp only [Runtime.call, Loader.loadPath, callActs]
    cases ModuleId.parse path with
    | ok id => exact idle.load files id
    | error e => exact .refl idle
  | loadWithin id ms => exact idle.spawn files id
  | register id module => exact idle.register id module
  | eval top name text => exact serves_eval idle files top name text
  | loadFile top path =>
    simp only [Runtime.call, TopLevel.evalFile, callActs]
    cases files.readText path with
    | ok text => exact serves_eval idle files top path text
    | error e =>
      unfold evalOn
      cases rt.tops[top]? <;> exact .refl idle
  | emptyTopLevel | define | lookup | state | loadedModules => exact .refl idle

theorem idle_run (idle : rt.loader.Idle) (ops : List (FileTree × Call)) :
    (rt.run ops).loader.Idle := by
  induction ops generalizing rt with
  | nil => exact idle
  | cons op rest ih => exact ih (serves_call idle op.1 op.2).idle

theorem kept_run (idle : rt.loader.Idle) (ops : List (FileTree × Call)) {id : ModuleId}
    {o : Outcome} (done : rt.loader.registry.cell? id = some (.done o)) :
    (rt.run ops).loader.registry.cell? id = some (.done o) := by
  induction ops generalizing rt with
  | nil => exact done
  | cons op rest ih =>
    have serves := serves_call idle op.1 op.2
    exact ih serves.idle (serves.kept id o done)

theorem accounts_run (idle : rt.loader.Idle) (ops : List (FileTree × Call)) {log : List Act}
    (h : rt.loader.registry.Accounts log) :
    (rt.run ops).loader.registry.Accounts (log ++ rt.acts ops) := by
  induction ops generalizing rt log with
  | nil => simpa [acts, run] using h
  | cons op rest ih =>
    have serves := serves_call idle op.1 op.2
    rw [acts, ← List.append_assoc]
    exact ih serves.idle (serves.accounts log h)

end Runtime
end ModuleSystem
