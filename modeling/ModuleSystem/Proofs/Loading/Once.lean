import ModuleSystem.Proofs.Loading.Runtime
import ModuleSystem.Proofs.Order

namespace ModuleSystem

/-- What has become of a module that is loaded or has failed. -/
def ModuleState.outcome? : ModuleState → Option Outcome
  | .loaded m => some (.ok m)
  | .failed e => some (.error e)
  | _ => none

namespace Registry

theorem outcome?_state_iff {r : Registry} {id : ModuleId} {o : Outcome} :
    (r.state id).outcome? = some o ↔ r.cell? id = some (.done o) := by
  unfold state
  split
  · next none => simp [ModuleState.outcome?, none]
  · next loading => simp [ModuleState.outcome?, loading]
  · next m loaded => simp [ModuleState.outcome?, loaded]
  · next e failed => simp [ModuleState.outcome?, failed]

theorem state_eq_loaded_iff {r : Registry} {id : ModuleId} {m : ModuleInstance} :
    r.state id = .loaded m ↔ r.cell? id = some (.done (.ok m)) := by
  unfold state
  split <;> simp_all

theorem state_eq_failed_iff {r : Registry} {id : ModuleId} {e : LoadError} :
    r.state id = .failed e ↔ r.cell? id = some (.done (.error e)) := by
  unfold state
  split <;> simp_all

theorem state_eq_unloaded_iff {r : Registry} {id : ModuleId} :
    r.state id = .unloaded ↔ r.cell? id = none := by
  unfold state
  split <;> simp_all

theorem lookup_keys {cells : List (ModuleId × Cell)} (once : (cells.map (·.1)).Nodup)
    {id : ModuleId} {c : Cell} : cells.lookup id = some c ↔ (id, c) ∈ cells := by
  induction cells with
  | nil => simp
  | cons first rest ih =>
    obtain ⟨k, d⟩ := first
    rw [List.map_cons, List.nodup_cons] at once
    rw [lookup_cons_eq, List.mem_cons]
    by_cases h : id = k
    · subst h
      have other : (id, c) ∉ rest := fun mem => once.1 (List.mem_map_of_mem (f := (·.1)) mem)
      simp [other, eq_comm]
    · simp [h, ih once.2]

theorem mem_loaded {r : Registry} (keys : r.claimed.Nodup) {id : ModuleId} :
    id ∈ r.loaded ↔ ∃ m, r.state id = .loaded m := by
  rw [loaded, mem_sortIds, List.mem_filterMap]
  constructor
  · rintro ⟨⟨k, c⟩, mem, found⟩
    split at found
    · next m same =>
      cases found
      cases same
      exact ⟨m, state_eq_loaded_iff.mpr ((lookup_keys keys).mpr mem)⟩
    · cases found
  · rintro ⟨m, here⟩
    refine ⟨(id, .done (.ok m)), ?_, rfl⟩
    exact (lookup_keys keys).mp (state_eq_loaded_iff.mp here)

theorem loaded_pairwise {r : Registry} (keys : r.claimed.Nodup) :
    r.loaded.Pairwise (· < ·) := by
  refine sortIds_pairwise ?_
  rw [claimed, List.Nodup, List.pairwise_map] at keys
  rw [List.Nodup, List.pairwise_filterMap]
  refine keys.imp fun {a b} other x hx y hy => ?_
  obtain ⟨k, c⟩ := a
  obtain ⟨k', c'⟩ := b
  split at hx
  · next same =>
    cases hx
    cases same
    split at hy
    · next same =>
      cases hy
      cases same
      exact other
    · cases hy
  · cases hx

end Registry

namespace Loader.Idle

variable {l : Loader}

theorem load_cached {files : FileTree} {id : ModuleId} {o : Outcome}
    (done : l.registry.cell? id = some (.done o)) :
    l.load files id = (l, some (.loaded o)) := by
  have run : l.mainRun files (.load id) = (l.registry, ⟨[], .ended (.loaded o)⟩) :=
    runSteps_cached done (four_le_stepBound _ _)
  rw [Loader.load, runMain_eq, run]
  rfl

theorem loadWithin_cached (idle : l.Idle) (files : FileTree) {id : ModuleId} {o : Outcome}
    (done : l.registry.cell? id = some (.done o)) (milliseconds : Nat) :
    (l.loadWithin files id milliseconds).2 = o ∧
      (l.loadWithin files id milliseconds).1.registry = l.registry := by
  have run : l.spawnRun files id = (l.registry, ⟨[], .ended (.loaded o)⟩) :=
    runSteps_cached done (four_le_stepBound _ _)
  have ending := idle.spawn_ending files id
  have after := idle.spawn_eq files id
  rw [run] at ending after
  rw [Loader.loadWithin]
  generalize l.spawn files id = out at ending after
  obtain ⟨l', thread⟩ := out
  dsimp only at ending after ⊢
  rw [ending, after]
  exact ⟨rfl, rfl⟩

end Loader.Idle

namespace Runtime

variable {rt : Runtime}

/-- A load of a module that has its outcome gives this outcome. -/
theorem call_cached (idle : rt.loader.Idle) (files : FileTree) {call : Call} {id : ModuleId}
    {o : Outcome} (target : call.target? = some id)
    (done : rt.loader.registry.cell? id = some (.done o)) :
    (rt.call files call).2.outcome? = some o ∧
      (rt.call files call).1.loader.registry = rt.loader.registry := by
  cases call with
  | load x =>
    cases target
    rw [Runtime.call, Loader.Idle.load_cached done]
    exact ⟨rfl, rfl⟩
  | topLevel x =>
    cases target
    rw [Runtime.call, Loader.Idle.load_cached done]
    exact ⟨rfl, rfl⟩
  | loadPath path =>
    simp only [Call.target?] at target
    rw [Runtime.call, Loader.loadPath]
    cases parsed : ModuleId.parse path with
    | error e => simp [parsed, Except.toOption] at target
    | ok x =>
      obtain rfl : x = id := by simpa [parsed, Except.toOption] using target
      dsimp only
      rw [Loader.Idle.load_cached done]
      exact ⟨rfl, rfl⟩
  | loadWithin x ms =>
    cases target
    obtain ⟨outcome, same⟩ := idle.loadWithin_cached files done ms
    exact ⟨congrArg some outcome, same⟩
  | _ => cases target

theorem call_register_taken (files : FileTree) {id : ModuleId} {o : Outcome}
    (done : rt.loader.registry.cell? id = some (.done o)) (module : Prebuilt) :
    rt.call files (.register id module) = (rt, .outcome (.error (.alreadyRegistered id))) := by
  have found : rt.loader.registry.cell? (module.instantiate id "<host>").id = some (.done o) := done
  rw [Runtime.call, Loader.register, Registry.register_of_some found]
  rfl

theorem acts_once (idle : rt.loader.Idle) (start : rt.loader.registry.Accounts [])
    (ops : List (FileTree × Call)) :
    ((rt.acts ops).filterMap Act.stage?).Nodup ∧
      (rt.run ops).loader.registry.claimed = (rt.acts ops).filterMap Act.claimed? ∧
      (rt.run ops).loader.registry.journal = (rt.acts ops).flatMap Act.events := by
  have accounts := accounts_run idle ops start
  rw [List.nil_append] at accounts
  exact ⟨accounts.lists.once, accounts.lists.listed, accounts.journal⟩

theorem settled (idle : rt.loader.Idle) (id : ModuleId) :
    rt.loader.registry.state id ≠ .loading := by
  unfold Registry.state
  split
  · simp
  · next owner loading => exact absurd loading (idle.rested.done id owner)
  · simp
  · simp

/-- Every module is claimed, compiled and started at most once; its outcome comes with the operation
that claims it, stays for good, and is what everybody gets who loads it later. -/
theorem once (chain : Chain) (recorder : Recorder) (broken : List String)
    (ops : List (FileTree × Call)) :
    let rt := (create chain recorder broken).run ops
    let acts := (create chain recorder broken).acts ops
    (acts.filterMap Act.stage?).Nodup ∧
    rt.loader.registry.claimed = acts.filterMap Act.claimed? ∧
    rt.loader.registry.journal = acts.flatMap Act.events ∧
    (∀ id, rt.loader.registry.state id ≠ .loading) ∧
    (∀ id o, (rt.loader.registry.state id).outcome? = some o →
      (∀ more, ((rt.run more).loader.registry.state id).outcome? = some o) ∧
      (∀ files call, call.target? = some id →
        (rt.call files call).2.outcome? = some o ∧
          (rt.call files call).1.loader.registry = rt.loader.registry) ∧
      ∀ files module,
        rt.call files (.register id module) = (rt, .outcome (.error (.alreadyRegistered id)))) ∧
    (∀ files id, rt.call files (.lookup id) = (rt, .found (rt.loader.registry.lookup id)) ∧
      rt.call files (.state id) = (rt, .state (rt.loader.registry.state id)) ∧
      rt.call files .loadedModules = (rt, .modules rt.loader.registry.loaded)) ∧
    rt.loader.registry.loaded.Pairwise (· < ·) ∧
    ∀ id, id ∈ rt.loader.registry.loaded ↔ ∃ m, rt.loader.registry.state id = .loaded m := by
  have start := idle_create chain recorder broken
  have empty : (create chain recorder broken).loader.registry.Accounts [] :=
    ⟨⟨List.nodup_nil, by simp, rfl⟩, rfl⟩
  obtain ⟨nodup, claimed, journal⟩ := acts_once start empty ops
  have idle := idle_run start ops
  refine ⟨nodup, claimed, journal, settled idle, fun id o here => ?_,
    fun files id => ⟨rfl, rfl, rfl⟩, Registry.loaded_pairwise idle.rested.keys,
    fun id => Registry.mem_loaded idle.rested.keys⟩
  have done := Registry.outcome?_state_iff.mp here
  exact ⟨fun more => Registry.outcome?_state_iff.mpr (kept_run idle more done),
    fun files call target => call_cached idle files target done,
    fun files module => call_register_taken files done module⟩

end Runtime
end ModuleSystem
