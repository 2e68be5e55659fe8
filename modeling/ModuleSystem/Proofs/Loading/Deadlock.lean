import ModuleSystem.Proofs.Loading.Cycle

namespace ModuleSystem.Crew

open Relation (ReflTransGen TransGen)

variable {files : FileTree} {chain : Chain} {c c' : Crew}

/-- The thread `a` waits for a module that `b` has claimed and not published yet. -/
def BlockedBy (c : Crew) (a b : ThreadId) : Prop :=
  ∃ id, (c.threads a).control = .waiting id ∧ c.registry.cell? id = some (.loading b)

/-- In this step the thread `me` claims a module. -/
def Claims (files : FileTree) (chain : Chain) (c c' : Crew) (me : ThreadId) (id : ModuleId) :
    Prop :=
  Step files chain c c' ∧ c.registry.cell? id = none ∧ c'.registry.cell? id = some (.loading me)

/-- Someone is told of a failure, or will be. -/
inductive Fails (c : Crew) (e : LoadError) : Prop
  | told (me : ThreadId) (h : (c.threads me).control = .answer (.error e))
  | loaded (me : ThreadId) (h : (c.threads me).control = .ended (.loaded (.error e)))
  | ran (me : ThreadId) (scope : Namespace)
      (h : (c.threads me).control = .ended (.ran scope (.error e)))
  | kept (id : ModuleId) (h : c.registry.cell? id = some (.done (.error e)))

theorem Coherent.blockedBy_iff (h : c.Coherent) (a b : ThreadId) :
    c.BlockedBy a b ↔ c.registry.BlockedBy a b := by
  have waits : ∀ id, c.registry.waiting? a = some id ↔ (c.threads a).control = .waiting id := by
    intro id
    rw [h.waits, Thread.waitsFor?]
    cases (c.threads a).control <;> simp
  simp only [BlockedBy, Registry.BlockedBy, waits]

theorem Coherent.step_claimed (h : c.Coherent) (next : Step files chain c c') {id : ModuleId}
    (mem : id ∈ c.registry.claimed) : id ∈ c'.registry.claimed := by
  cases next with
  | move me _ _ moved =>
    obtain ⟨goal, valid⟩ := h.valid me
    exact ((transition_of_step moved).effect valid).claimed_mono mem
  | load => exact mem
  | script me name text _ _ compiled =>
    have quiet := (c.registry.compile_quiet (.script name) name text).1
    rw [compiled] at quiet
    rwa [registry_put, Registry.claimed_congr quiet]
  | reject name text failed =>
    have quiet := (c.registry.compile_quiet (.script name) name text).1
    rw [failed] at quiet
    rwa [Registry.claimed_congr quiet]
  | register m =>
    cases found : c.registry.cell? m.id with
    | some _ => rwa [Registry.register_of_some found]
    | none =>
      rw [Registry.claimed_register found]
      exact List.mem_append_left _ mem

theorem Reachable.trans (h : Reachable files chain c)
    (path : ReflTransGen (Step files chain) c c') : Reachable files chain c' := by
  induction path with
  | refl => exact h
  | tail _ next ih => exact ih.step next

theorem Reachable.claimed_mono (h : Reachable files chain c)
    (path : ReflTransGen (Step files chain) c c') {id : ModuleId} (mem : id ∈ c.registry.claimed) :
    id ∈ c'.registry.claimed := by
  induction path with
  | refl => exact mem
  | tail path next ih => exact (h.trans path).coherent.step_claimed next ih

theorem Reachable.claimed_once (h : Reachable files chain c) {me : ThreadId} {id : ModuleId}
    {c₁ : Crew} (first : Claims files chain c c₁ me id) {c₂ c₃ : Crew} {other : ThreadId}
    (path : ReflTransGen (Step files chain) c₁ c₂) : ¬Claims files chain c₂ c₃ other id := by
  obtain ⟨next, _, loading⟩ := first
  rintro ⟨_, new, _⟩
  have mem := Registry.mem_claimed_iff.mpr ⟨_, loading⟩
  exact Registry.cell?_eq_none_iff.mp new ((h.step next).claimed_mono path mem)

theorem Reachable.acyclic (h : Reachable files chain c) : c.registry.Acyclic := by
  induction h with
  | fresh recorder => exact Registry.acyclic_empty recorder
  | @step c _ before next ih =>
    cases next with
    | move me _ _ moved =>
      obtain ⟨goal, valid⟩ := before.coherent.valid me
      exact before.coherent.acyclic_put ih ((transition_of_step moved).effect valid)
    | load => exact ih
    | script me name text _ _ compiled =>
      obtain ⟨cells, waits⟩ := c.registry.compile_quiet (.script name) name text
      rw [compiled] at cells waits
      exact ih.congr cells waits
    | reject name text failed =>
      obtain ⟨cells, waits⟩ := c.registry.compile_quiet (.script name) name text
      rw [failed] at cells waits
      exact ih.congr cells waits
    | register m => exact ih.register m

/-- A thread that has not ended and waits for nobody can go on, unless its body is held back. -/
theorem Coherent.can_step (h : c.Coherent) {me : ThreadId} (busy : (c.threads me).ending? = none)
    (free : ∀ other, ¬c.BlockedBy me other) (broken : List String) :
    ∃ r t, step ⟨files, chain, [], broken⟩ me c.registry (c.threads me) = some (r, t) := by
  obtain ⟨goal, nested, fits⟩ := h.valid me
  have seen := h.seen me
  have unblocked : ∀ id other, (c.threads me).control = .waiting id →
      c.registry.cell? id ≠ some (.loading other) := fun id other here loading =>
    free other ⟨id, here, loading⟩
  generalize c.threads me = t at busy fits seen unblocked ⊢
  obtain ⟨stack, control⟩ := t
  cases control with
  | request id =>
    simp only [step]
    split
    · exact ⟨_, _, rfl⟩
    · split <;> exact ⟨_, _, rfl⟩
  | look id =>
    obtain ⟨cell, found⟩ := Registry.mem_claimed_iff.mp (seen id rfl).1
    simp only [step, found]
    cases cell <;> exact ⟨_, _, rfl⟩
  | park id =>
    simp only [step]
    split <;> exact ⟨_, _, rfl⟩
  | waiting id =>
    obtain ⟨cell, found⟩ := Registry.mem_claimed_iff.mp (seen id rfl).1
    cases cell with
    | loading owner => exact absurd found (unblocked id owner rfl)
    | done o =>
      simp only [step, found]
      exact ⟨_, _, rfl⟩
  | build id =>
    simp only [step]
    split
    · exact ⟨_, _, rfl⟩
    · exact ⟨_, _, rfl⟩
    · split <;> exact ⟨_, _, rfl⟩
  | enter =>
    obtain ⟨b, below, rfl, _⟩ := fits
    simp only [step, List.contains_nil]
    split
    · cases ‹false = true›
    · split <;> exact ⟨_, _, rfl⟩
  | run =>
    obtain ⟨b, below, rfl⟩ := List.exists_cons_of_ne_nil fits
    simp only [step]
    split
    · exact ⟨_, _, rfl⟩
    · exact ⟨_, _, rfl⟩
    · split <;> exact ⟨_, _, rfl⟩
  | answer o =>
    cases stack with
    | nil => exact ⟨_, _, rfl⟩
    | cons b below => cases o <;> exact ⟨_, _, rfl⟩
  | unwind =>
    cases stack with
    | nil => exact ⟨_, _, rfl⟩
    | cons b below =>
      simp only [step]
      split <;> exact ⟨_, _, rfl⟩
  | ended e => cases busy

/-- As long as some thread has not ended, some thread can go on, and it is one that the first one
waits for in the end. -/
theorem Reachable.can_move (h : Reachable files chain c) {me : ThreadId}
    (busy : (c.threads me).ending? = none) (broken : List String) :
    ∃ other, ReflTransGen c.BlockedBy me other ∧
      ∃ r t, ModuleSystem.step ⟨files, chain, [], broken⟩ other c.registry (c.threads other) =
        some (r, t) := by
  have coherent := h.coherent
  have same : c.BlockedBy = c.registry.BlockedBy := by
    funext a b
    exact propext (coherent.blockedBy_iff a b)
  obtain ⟨other, path, last⟩ := Registry.exists_unblocked h.acyclic me
  rw [← same] at path last
  refine ⟨other, path, coherent.can_step ?_ last broken⟩
  obtain rfl | ⟨_, _, id, _, loading⟩ := path.cases_tail
  · exact busy
  · -- Someone waits for a module of this thread, so the thread has not ended.
    rw [coherent.owned] at loading
    cases control : (c.threads other).control with
    | ended e =>
      rw [(coherent.claims_of_ended control).1] at loading
      cases loading
    | _ => rw [Thread.ending?, control]

theorem Faithful.start {R : ModuleId → ModuleId → Prop} (h : c.Faithful R) {me : ThreadId}
    {r : Registry} {t : Thread} (cells : r.cells = c.registry.cells)
    (sourced : ModuleSystem.Sourced R t.stack) (told : t.control.Honest R) :
    (c.put me r t).Faithful R := by
  refine ⟨fun x => ?_, fun id o found => ?_, fun x => ?_⟩
  · by_cases hx : x = me
    · subst hx
      rwa [threads_put_self]
    · rw [threads_put_ne c hx]
      exact h.sourced x
  · rw [registry_put, Registry.cell?_congr cells] at found
    exact h.kept id o found
  · by_cases hx : x = me
    · subst hx
      rwa [threads_put_self]
    · rw [threads_put_ne c hx]
      exact h.told x

theorem Reachable.faithful (h : Reachable files chain c) :
    c.Faithful (Requires files chain) := by
  induction h with
  | fresh recorder =>
    refine ⟨fun _ b none => ?_, fun id o none => ?_, fun _ => trivial⟩
    · cases none
    · cases none
  | @step c _ before next ih =>
    cases next with
    | move me _ _ moved => exact ih.move before.coherent (transition_of_step moved)
    | load me id free => exact ih.start rfl (fun b none => by cases none) trivial
    | script me name text scope free compiled =>
      have cells := (c.registry.compile_quiet (.script name) name text).1
      rw [compiled] at cells
      refine ih.start cells (fun b mem id unit => ?_) trivial
      rw [List.mem_singleton.mp mem] at unit
      cases unit
    | reject name text failed =>
      have cells := (c.registry.compile_quiet (.script name) name text).1
      rw [failed] at cells
      refine ⟨ih.sourced, fun id o found => ?_, ih.told⟩
      rw [Registry.cell?_congr cells] at found
      exact ih.kept id o found
    | register m =>
      refine ⟨ih.sourced, fun id o found => ?_, ih.told⟩
      cases present : c.registry.cell? m.id with
      | some _ =>
        rw [Registry.register_of_some present] at found
        exact ih.kept id o found
      | none =>
        rw [Registry.register_of_none present, Registry.cell?,
          Registry.lookup_push present] at found
        split at found
        · cases found
          exact Honest.ok m
        · exact ih.kept id o found

theorem Faithful.honest {R : ModuleId → ModuleId → Prop} (h : c.Faithful R) {e : LoadError}
    (fails : c.Fails e) : e.Honest R := by
  cases fails with
  | told me here | loaded me here =>
    have told := h.told me
    rw [here] at told
    exact told e rfl
  | ran me scope here =>
    have told := h.told me
    rw [here] at told
    exact told e rfl
  | kept id found => exact h.kept id _ found e rfl

/-- The protocol by which threads claim modules and wait for one another: each module is claimed at
most once, no threads block one another, and reports of cycles are true. -/
theorem Reachable.protocol (h : Reachable files chain c) :
    (∀ me id c₁ c₂ c₃ other, Claims files chain c c₁ me id →
      ReflTransGen (Step files chain) c₁ c₂ → ¬Claims files chain c₂ c₃ other id) ∧
    (∀ me id, c.registry.cell? id = some (.loading me) ↔ id ∈ (c.threads me).claims) ∧
    (∀ me, ¬TransGen c.BlockedBy me me) ∧
    (∀ me broken, (c.threads me).ending? = none → ∃ other, ReflTransGen c.BlockedBy me other ∧
      ∃ r t, ModuleSystem.step ⟨files, chain, [], broken⟩ other c.registry (c.threads other) =
        some (r, t)) ∧
    (∀ e path, c.Fails e → e.rootCause = .cycle path → Genuine (Requires files chain) path) ∧
    ((∀ id, ¬TransGen (Requires files chain) id id) → ∀ e, c.Fails e → e.isCycle = false) := by
  have genuine : ∀ e path, c.Fails e → e.rootCause = .cycle path →
      Genuine (Requires files chain) path := fun e path fails => h.faithful.honest fails path
  refine ⟨fun me id c₁ c₂ c₃ other first path => h.claimed_once first path, h.coherent.owned,
    fun me cycle => h.acyclic me ?_, fun me broken busy => h.can_move busy broken, genuine, ?_⟩
  · exact TransGen.mono (fun a b => (h.coherent.blockedBy_iff a b).mp) me me cycle
  · intro acyclic e fails
    unfold LoadError.isCycle
    split
    · obtain ⟨id, cycle⟩ := (genuine e _ fails ‹_›).cyclic
      exact absurd cycle (acyclic id)
    · rfl

/-- A second thread comes to wait for a module that a first one has just claimed. -/
theorem reachable_blocked (id : ModuleId) :
    ∃ c, Reachable ⟨[], []⟩ [] c ∧ c.BlockedBy 2 1 := by
  let r : Registry := ⟨[(id, .loading 1)], [], .off, []⟩
  have found : r.cell? id = some (.loading 1) := by simp [r, Registry.cell?]
  have asked := ((@Reachable.fresh ⟨[], []⟩ [] .off).step (.load 1 id rfl)).step (.load 2 id rfl)
  have claimed := asked.step (.move 1 [] [] (r := r) (t := ⟨[], .build id⟩) rfl)
  have known := claimed.step (.move 2 [] [] (r := r) (t := ⟨[], .look id⟩) ?known)
  have busy := known.step (.move 2 [] [] (r := r) (t := ⟨[], .park id⟩) ?busy)
  have waiting := busy.step (.move 2 [] [] (r := r.wait 2 id) (t := ⟨[], .waiting id⟩) ?wait)
  · exact ⟨_, waiting, id, rfl, found⟩
  case known =>
    change ModuleSystem.step _ 2 r ⟨[], .request id⟩ = _
    simp [ModuleSystem.step, Thread.modulesFrom, Thread.modules, found]
  case busy =>
    change ModuleSystem.step _ 2 r ⟨[], .look id⟩ = _
    simp [ModuleSystem.step, found]
  case wait =>
    change ModuleSystem.step _ 2 r ⟨[], .park id⟩ = _
    have free : r.deadlock? 2 (Thread.modulesFrom ⟨[], .park id⟩) 1 id [] = none := by
      rw [Registry.deadlock?_other found (by decide)]
      rfl
    simp only [ModuleSystem.step]
    rw [show r.waits.length + 1 = 1 from rfl, free]

/-- Two threads that ask for one module: the second one waits, and the first one can go on. -/
theorem Reachable.protocol_two_threads :
    ∃ c, Reachable ⟨[], []⟩ [] c ∧ c.BlockedBy 2 1 ∧ ¬c.BlockedBy 1 2 := by
  obtain ⟨c, reachable, blocked⟩ := reachable_blocked Bootstrap.baseId
  refine ⟨c, reachable, blocked, fun back => ?_⟩
  exact reachable.protocol.2.2.1 1 (.head back (.single blocked))

end ModuleSystem.Crew
