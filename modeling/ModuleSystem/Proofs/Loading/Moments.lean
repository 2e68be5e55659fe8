import ModuleSystem.Proofs.Loading.Once

namespace ModuleSystem

theorem runSteps_add (s : Surroundings) (me : ThreadId) (m n : Nat) (r : Registry) (t : Thread) :
    runSteps s me (m + n) r t =
      runSteps s me n (runSteps s me m r t).1 (runSteps s me m r t).2 := by
  induction m generalizing r t with
  | zero => rw [Nat.zero_add, runSteps]
  | succ m ih =>
    rw [Nat.succ_add, runSteps, runSteps]
    cases moved : step s me r t with
    | none => exact (runSteps_of_stuck moved n).symm
    | some next => exact ih next.1 next.2

/-- What an operation gives a thread to do, and the registry that the thread meets. -/
structure Start where
  registry : Registry
  me : ThreadId
  thread : Thread

namespace Start

variable {start : Start} {s : Surroundings}

/-- What the registry and the thread are after some steps. -/
def moment (start : Start) (s : Surroundings) (n : Nat) : Registry × Thread :=
  runSteps s start.me n start.registry start.thread

theorem moment_add (start : Start) (s : Surroundings) (m n : Nat) :
    start.moment s (m + n) =
      runSteps s start.me n (start.moment s m).1 (start.moment s m).2 := runSteps_add ..

/-- What every step keeps holds from a moment on. -/
theorem moment_keeps {P : Registry → Thread → Prop}
    (keeps : ∀ {r r' t t'}, Transition s start.me r t r' t' → P r t → P r' t') {m : Nat}
    (now : P (start.moment s m).1 (start.moment s m).2) (n : Nat) :
    P (start.moment s (m + n)).1 (start.moment s (m + n)).2 := by
  rw [moment_add]
  exact runSteps_keeps keeps n now

theorem moment_of_ended {m : Nat} {r : Registry} {stack : List Body} {e : Ending}
    (ended : start.moment s m = (r, ⟨stack, .ended e⟩)) (n : Nat) :
    start.moment s (m + n) = (r, ⟨stack, .ended e⟩) := by
  rw [moment_add, ended]
  exact runSteps_of_stuck rfl n

/-- A thread that begins while every module has its outcome. -/
structure Ready (start : Start) (goal : Option ModuleId) : Prop where
  begins : start.thread.Begins goal
  rested : start.registry.Rested

namespace Ready

variable {goal : Option ModuleId}

theorem coherent (h : start.Ready goal) (s : Surroundings) (n : Nat) :
    (Crew.solo (start.moment s n).1 start.me (start.moment s n).2).Coherent :=
  h.rested.coherent_run h.begins n

/-- What has come out stays. -/
theorem kept (h : start.Ready goal) {m : Nat} {id : ModuleId} {o : Outcome}
    (done : (start.moment s m).1.cell? id = some (.done o)) (n : Nat) :
    (start.moment s (m + n)).1.cell? id = some (.done o) :=
  (moment_keeps (P := fun r t => (Crew.solo r start.me t).Coherent ∧ r.cell? id = some (.done o))
    (fun moved h => ⟨h.1.move_solo moved, h.1.done_solo moved h.2⟩) ⟨h.coherent s m, done⟩ n).2

end Ready
end Start

namespace Loader.Idle

variable {l : Loader}

/-- A load of the caller's thread tells how that thread has ended. -/
theorem load_told (idle : l.Idle) (files : FileTree) (id : ModuleId) : ∃ n e,
    Start.moment ⟨l.registry, mainThread, .load id⟩ (l.surroundings files) n =
      ((l.load files id).1.registry, ⟨[], .ended e⟩) ∧
    e.Fits (some id) ∧ (l.load files id).2 = some e := by
  obtain ⟨_, e, ended, fits⟩ := idle.mainRun files (.load id)
  refine ⟨_, e, Prod.ext rfl ended, fits, ?_⟩
  rw [Loader.load, runMain_eq, ended]
  rfl

/-- A load of a thread of its own. -/
theorem loadWithin_told (idle : l.Idle) (files : FileTree) (id : ModuleId)
    (milliseconds : Nat) : ∃ n e,
    Start.moment ⟨l.registry, l.fresh, .load id⟩ (l.surroundings files) n =
      ((l.loadWithin files id milliseconds).1.registry, ⟨[], .ended e⟩) ∧
    e.Fits (some id) ∧ (l.loadWithin files id milliseconds).2 = outcomeOf id e := by
  obtain ⟨_, e, ended, fits⟩ := idle.spawnRun files id
  have left : (l.spawn files id).1.registry = (l.spawnRun files id).1 := by rw [idle.spawn_eq]
  have ending := idle.spawn_ending files id
  rw [ended] at ending
  refine ⟨_, e, Prod.ext left.symm ended, fits, ?_⟩
  rw [Loader.loadWithin]
  generalize l.spawn files id = out at ending
  obtain ⟨after, thread⟩ := out
  dsimp only at ending ⊢
  rw [ending]
  rfl

end Loader.Idle

/-- A reply that tells how a thread has ended. -/
inductive Reply.Tells (e : Ending) : Reply → Prop
  | ending : Tells e (.ending (some e))
  | outcome (id : ModuleId) : Tells e (.outcome (Loader.outcomeOf id e))
  | script (top : TopLevel) : Tells e (.script (top.settleScript (some e)).2)

namespace Runtime

def evalStart? (rt : Runtime) (top : Nat) (name text : String) : Option Start :=
  match rt.tops[top]? with
  | none => none
  | some t =>
    match rt.loader.registry.compile (.script name) name text with
    | (_, .error _) => none
    | (registry, .ok p) =>
      some ⟨registry, mainThread, .body (.start (.script name) name t.scope p)⟩

/-- What an operation begins: a load, or a script that compiles. -/
def start? (rt : Runtime) (files : FileTree) : Call → Option Start
  | .load id | .topLevel id => some ⟨rt.loader.registry, mainThread, .load id⟩
  | .loadPath path =>
    match ModuleId.parse path with
    | .ok id => some ⟨rt.loader.registry, mainThread, .load id⟩
    | .error _ => none
  | .loadWithin id _ => some ⟨rt.loader.registry, rt.loader.fresh, .load id⟩
  | .eval top name text => rt.evalStart? top name text
  | .loadFile top path =>
    match files.readText path with
    | .ok text => rt.evalStart? top path text
    | .error _ => none
  | _ => none

/-- The operation runs what it begins to its end, leaves the registry as it is then, and tells of
that end. -/
structure Runs (rt : Runtime) (files : FileTree) (call : Call) (start : Start)
    (goal : Option ModuleId) : Prop where
  ready : start.Ready goal
  cells : start.registry.cells = rt.loader.registry.cells
  ends : ∃ n e, start.moment (rt.loader.surroundings files) n =
    ((rt.call files call).1.loader.registry, ⟨[], .ended e⟩) ∧
    e.Fits goal ∧ (rt.call files call).2.Tells e

variable {rt : Runtime} {files : FileTree} {start : Start}

theorem load_start (idle : rt.loader.Idle) {call : Call} {id : ModuleId}
    (left : (rt.call files call).1.loader.registry = (rt.loader.load files id).1.registry)
    (told : (rt.call files call).2 = .ending (rt.loader.load files id).2) :
    rt.Runs files call ⟨rt.loader.registry, mainThread, .load id⟩ (some id) := by
  obtain ⟨n, e, ended, fits, ending⟩ := idle.load_told files id
  rw [← left] at ended
  refine ⟨⟨.load id, idle.rested⟩, rfl, n, e, ended, fits, ?_⟩
  rw [told, ending]
  exact .ending

theorem loadWithin_start (idle : rt.loader.Idle) (files : FileTree) (id : ModuleId)
    (milliseconds : Nat) :
    rt.Runs files (.loadWithin id milliseconds) ⟨rt.loader.registry, rt.loader.fresh, .load id⟩
      (some id) := by
  obtain ⟨n, e, ended, fits, told⟩ := idle.loadWithin_told files id milliseconds
  refine ⟨⟨.load id, idle.rested⟩, rfl, n, e, ended, fits, ?_⟩
  have reply : (rt.call files (.loadWithin id milliseconds)).2 = .outcome (Loader.outcomeOf id e) :=
    congrArg Reply.outcome told
  rw [reply]
  exact .outcome id

theorem eval_start (idle : rt.loader.Idle) {call : Call} {top : Nat} {name text : String}
    (same : rt.call files call = rt.evalOn top fun t => t.eval rt.loader files name text)
    (begun : rt.evalStart? top name text = some start) : rt.Runs files call start none := by
  unfold evalStart? at begun
  obtain ⟨cells, waits⟩ := rt.loader.registry.compile_quiet (.script name) name text
  cases found : rt.tops[top]? with
  | none =>
    rw [found] at begun
    cases begun
  | some t =>
    rw [found] at begun
    cases compiled : rt.loader.registry.compile (.script name) name text with
    | mk r result =>
      rw [compiled] at begun cells waits
      cases result with
      | error e => cases begun
      | ok p =>
        cases begun
        have rested : r.Rested := idle.rested.congr cells waits
        have begins : Thread.Begins none (.body (.start (.script name) name t.scope p)) :=
          .script rfl rfl
        obtain ⟨_, e, ended, fits⟩ := (idle.withRegistry rested).mainRun files begins
        rw [evalOn, found] at same
        simp only [TopLevel.eval, Loader.runScript, compiled, Loader.runMain_eq, ended] at same
        refine ⟨⟨begins, rested⟩, cells, _, e, Prod.ext ?_ ended, fits, ?_⟩
        · rw [same]
          rfl
        · rw [same]
          exact .script t

/-- What an operation begins comes to its end, and that is what the operation leaves and tells. -/
theorem call_start (idle : rt.loader.Idle) {call : Call}
    (begun : rt.start? files call = some start) : ∃ goal, rt.Runs files call start goal := by
  cases call with
  | load id =>
    cases begun
    exact ⟨_, load_start idle rfl rfl⟩
  | topLevel id =>
    cases begun
    exact ⟨_, load_start idle rfl rfl⟩
  | loadPath path =>
    simp only [start?] at begun
    cases parsed : ModuleId.parse path with
    | error e =>
      rw [parsed] at begun
      cases begun
    | ok id =>
      rw [parsed] at begun
      cases begun
      have same : rt.call files (.loadPath path) = rt.call files (.load id) := by
        simp only [Runtime.call, Loader.loadPath, parsed]
      exact ⟨_, load_start idle (by rw [same]; rfl) (by rw [same]; rfl)⟩
  | loadWithin id milliseconds =>
    cases begun
    exact ⟨_, loadWithin_start idle files id milliseconds⟩
  | eval top name text => exact ⟨_, eval_start idle rfl begun⟩
  | loadFile top path =>
    simp only [start?] at begun
    cases read : files.readText path with
    | error e =>
      rw [read] at begun
      cases begun
    | ok text =>
      rw [read] at begun
      refine ⟨_, eval_start idle ?_ begun⟩
      simp only [Runtime.call, TopLevel.evalFile, read]
  | register | emptyTopLevel | define | lookup | state | loadedModules => cases begun

theorem eval_still {top : Nat} {name text : String}
    (none : rt.evalStart? top name text = none) :
    (rt.evalOn top fun t => t.eval rt.loader files name text).1.loader.registry.cells =
      rt.loader.registry.cells := by
  unfold evalStart? at none
  unfold evalOn
  cases found : rt.tops[top]? with
  | none => rfl
  | some t =>
    rw [found] at none
    have quiet := (rt.loader.registry.compile_quiet (.script name) name text).1
    simp only [TopLevel.eval, Loader.runScript]
    cases compiled : rt.loader.registry.compile (.script name) name text with
    | mk r result =>
      rw [compiled] at none quiet
      cases result with
      | error e => exact quiet
      | ok p => cases none

/-- An operation that begins nothing lets no module fail: at most it registers one. -/
theorem call_still {call : Call} (none : rt.start? files call = none) {id : ModuleId}
    {e : LoadError} (failed : (rt.call files call).1.loader.registry.state id = .failed e) :
    rt.loader.registry.state id = .failed e := by
  have quiet : (rt.call files call).1.loader.registry.cells = rt.loader.registry.cells →
      rt.loader.registry.state id = .failed e := by
    intro cells
    rw [Registry.state_eq_failed_iff, Registry.cell?_congr cells] at failed
    exact Registry.state_eq_failed_iff.mpr failed
  cases call with
  | load | topLevel | loadWithin => cases none
  | loadPath path =>
    simp only [start?] at none
    cases parsed : ModuleId.parse path with
    | ok id =>
      rw [parsed] at none
      cases none
    | error fault => exact quiet (by simp only [Runtime.call, Loader.loadPath, parsed])
  | eval top name text => exact quiet (eval_still none)
  | loadFile top path =>
    simp only [start?] at none
    cases read : files.readText path with
    | ok text =>
      rw [read] at none
      refine quiet ?_
      simp only [Runtime.call, TopLevel.evalFile, read]
      exact eval_still none
    | error fault =>
      refine quiet ?_
      simp only [Runtime.call, TopLevel.evalFile, read, evalOn]
      cases rt.tops[top]? <;> rfl
  | register x module =>
    cases found : rt.loader.registry.cell? (module.instantiate x "<host>").id with
    | some c =>
      refine quiet ?_
      rw [Runtime.call, Loader.register, Registry.register_of_some found]
    | none =>
      have place : (rt.call files (.register x module)).1.loader.registry =
          (rt.loader.registry.register (module.instantiate x "<host>")).1 := rfl
      rw [Registry.state_eq_failed_iff, place, Registry.register_of_none found, Registry.cell?,
        Registry.lookup_push found] at failed
      split at failed
      · cases failed
      · exact Registry.state_eq_failed_iff.mpr failed
  | emptyTopLevel | define | lookup | state | loadedModules => exact quiet rfl

theorem run_append (rt : Runtime) (ops more : List (FileTree × Call)) :
    rt.run (ops ++ more) = (rt.run ops).run more := by
  induction ops generalizing rt with
  | nil => rfl
  | cons op rest ih => exact ih (rt.call op.1 op.2).1

/-- The registries that there are while operations follow one another: those between two
operations, and those between two steps of the last one. -/
inductive Passes (rt : Runtime) : List (FileTree × Call) → Registry → Prop
  | between (ops : List (FileTree × Call)) : Passes rt ops (rt.run ops).loader.registry
  | within {before : List (FileTree × Call)} {files : FileTree} {call : Call} {start : Start}
      (begun : (rt.run before).start? files call = some start) (n : Nat) :
      Passes rt (before ++ [(files, call)])
        (start.moment ((rt.run before).loader.surroundings files) n).1

end Runtime
end ModuleSystem
