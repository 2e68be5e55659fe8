import ModuleSystem.Proofs.Loading.CycleMembers
import ModuleSystem.Proofs.Loading.OrderFree

namespace ModuleSystem

open Relation (ReflTransGen TransGen)

/-- The modules that a script requires, if it compiles. -/
def Form.requiredBy (text : String) : List ModuleId :=
  match Form.compile false text with
  | .ok p => Form.Program.required p
  | .error _ => []

/-- The modules that an operation may ask for: the one that it loads, or those that its script
requires. -/
def Call.asked (files : FileTree) : Call → List ModuleId
  | .eval _ _ text => Form.requiredBy text
  | .loadFile _ path =>
    match files.readText path with
    | .ok text => Form.requiredBy text
    | .error _ => []
  | call => call.target?.toList

/-- The failure that a reply tells of. -/
def Reply.error? : Reply → Option LoadError
  | .ending (some e) => e.error?
  | .outcome (.error e) | .script (some (.failed e)) | .state (.failed e) => some e
  | _ => none

theorem Reply.error?_state {s : ModuleState} {e : LoadError} :
    (Reply.state s).error? = some e ↔ s = .failed e := by
  cases s <;> simp [Reply.error?]

/-- Whoever has failed with a chain: with one of its modules all of them, and otherwise those that
came to require somebody who has. -/
structure Registry.Exact (lib : Library) (r : Registry) : Prop where
  members : ∀ path id, r.FailsOn path id → ∀ m ∈ path, r.FailsOn path m
  cause : ∀ path id, r.FailsOn path id → id ∈ path ∨ ∃ q, Leans lib id q ∧ r.FailsOn path q

theorem Registry.Exact.congr {lib : Library} {r r' : Registry} (h : r.Exact lib)
    (cells : r'.cells = r.cells) : r'.Exact lib := by
  have same : ∀ path id, r'.FailsOn path id ↔ r.FailsOn path id := by
    intro path id
    rw [FailsOn, cell?_congr cells, FailsOn]
  refine ⟨fun path id fails m mem => ?_, fun path id fails => ?_⟩
  · exact (same path m).mpr (h.members path id ((same path id).mp fails) m mem)
  · obtain inside | ⟨q, leans, failed⟩ := h.cause path id ((same path id).mp fails)
    · exact .inl inside
    · exact .inr ⟨q, leans, (same path q).mpr failed⟩

theorem Registry.GrownFrom.congr {R : ModuleId → ModuleId → Prop} {roots : List ModuleId}
    {r r' : Registry} (h : r.GrownFrom R roots) (cells : r'.cells = r.cells) :
    r'.GrownFrom R roots := by
  unfold GrownFrom
  rw [claimed_congr cells]
  exact h

theorem Thread.Begins.blamed {lib : Library} {goal : Option ModuleId} {r : Registry} {t : Thread}
    (begins : t.Begins goal) (cycles : r.Exact lib) : Blamed lib goal r t := by
  have silent : ∀ path, t.control ≠ .answer (.error (.cycle path)) := by
    intro path telling
    cases begins <;> cases telling
  have busy : ∀ ending, t.control ≠ .ended ending := by
    intro ending ended
    cases begins <;> cases ended
  exact ⟨fun path id fails m mem => .inl (cycles.members path id fails m mem), cycles.cause,
    fun path telling => absurd telling (silent path),
    fun ending ended => absurd ended (busy ending)⟩

theorem Blamed.exact {lib : Library} {goal : Option ModuleId} {r : Registry} {ending : Ending}
    (h : Blamed lib goal r ⟨[], .ended ending⟩) : r.Exact lib := by
  refine ⟨fun path id fails m mem => ?_, h.cause⟩
  obtain failed | ⟨none, _⟩ := h.members path id fails m mem
  · exact failed
  · cases none

/-- A thread asks for nothing but roots. -/
def Thread.AsksWithin (roots : List ModuleId) (goal : Option ModuleId) (t : Thread) : Prop :=
  (∀ id, goal = some id → id ∈ roots) ∧ ∀ b ∈ t.stack, ∀ q ∈ b.wants, q ∈ roots

theorem Thread.asksWithin_load {roots : List ModuleId} {id : ModuleId} (asked : id ∈ roots) :
    (Thread.load id).AsksWithin roots (some id) := by
  refine ⟨?_, fun b none => by cases none⟩
  rintro _ ⟨⟩
  exact asked

theorem Thread.asksWithin_script {roots : List ModuleId} {p : Form.Program}
    (asked : ∀ q ∈ Form.Program.required p, q ∈ roots) (unit : BodyUnit) (name : String)
    (scope : Namespace) : (Thread.body (.start unit name scope p)).AsksWithin roots none := by
  refine ⟨fun id none => (by cases none), ?_⟩
  intro b mem q wanted
  rw [List.mem_singleton.mp mem] at wanted
  exact asked q wanted

theorem Thread.Begins.rooted {R : ModuleId → ModuleId → Prop} {roots : List ModuleId}
    {goal : Option ModuleId} {r : Registry} {t : Thread} (begins : t.Begins goal)
    (grown : r.GrownFrom R roots) (asks : t.AsksWithin roots goal) : Rooted R roots goal r t := by
  refine ⟨grown, ?_, fun b mem name unit => asks.2 b mem, asks.1⟩
  cases begins with
  | load id =>
    intro b none
    cases none
  | script unit noPending =>
    intro b mem id module
    rw [List.mem_singleton.mp mem, unit] at module
    cases module

/-- What a loader keeps of cycles, while its repositories hold what they hold in `files`. -/
structure Loader.Traced (chain : Chain) (files : FileTree) (roots : List ModuleId) (l : Loader) :
    Prop where
  truthful : l.Truthful chain (Surroundings.prepare ⟨files, chain, [], []⟩)
  cycles : l.registry.Exact (Surroundings.prepare ⟨files, chain, [], []⟩)
  grown : l.registry.GrownFrom (Requires files chain) roots

/-- A reply tells of no cycle that is not kept for a module. -/
def Reply.Kept (r : Registry) (reply : Reply) : Prop := ∀ e, reply.error? = some e → e.Kept r

theorem Registry.compile_result (r : Registry) (unit : BodyUnit) (source text : String) :
    (r.compile unit source text).2 = (Form.compile unit.isModule text).mapError fun e =>
      .compile unit.text e.span e.message := by
  unfold compile
  cases Form.compile unit.isModule text <;> rfl

theorem LoadError.kept_of_not_cycle {r : Registry} {e : LoadError} (h : e.isCycle = false) :
    e.Kept r := by
  intro cycle
  rw [h] at cycle
  cases cycle

namespace Loader.Traced

variable {chain : Chain} {base files : FileTree} {roots : List ModuleId} {l : Loader}

/-- The same registry but for what is reported. -/
theorem congr (h : l.Traced chain base roots) {r : Registry} (cells : r.cells = l.registry.cells)
    (waits : r.waits = l.registry.waits) :
    Loader.Traced chain base roots { l with registry := r } := by
  refine ⟨⟨h.truthful.idle.withRegistry (h.truthful.idle.rested.congr cells waits),
    h.truthful.fixed, fun id o done => ?_⟩, h.cycles.congr cells, h.grown.congr cells⟩
  rw [Registry.cell?_congr cells] at done
  exact h.truthful.kept id o done

variable (h : l.Traced chain base roots)
  (holds : Surroundings.prepare ⟨files, chain, [], []⟩ =
    Surroundings.prepare ⟨base, chain, [], []⟩)
include h holds

theorem run {goal : Option ModuleId} {t : Thread} (begins : t.Begins goal)
    (asks : t.AsksWithin roots goal) {me : ThreadId} {fuel : Nat} {ending : Ending}
    (ended : (runSteps (l.surroundings files) me fuel l.registry t).2 = ⟨[], .ended ending⟩) :
    let r := (runSteps (l.surroundings files) me fuel l.registry t).1
    r.Exact (Surroundings.prepare ⟨base, chain, [], []⟩) ∧
      r.GrownFrom (Requires base chain) roots ∧ ∀ e, ending.error? = some e → e.Kept r := by
  intro r
  have same := h.truthful.same holds
  have rested := h.truthful.idle.rested
  have whole := h.truthful.fixed.2
  have sources : ∀ id source p, (l.surroundings files).prepare id = .program source p →
      ∀ q ∈ Form.Program.required p, Requires base chain id q := by
    intro id source p ready q mem
    rw [same] at ready
    exact ⟨source, p, ready, mem⟩
  let P (r : Registry) (t : Thread) : Prop :=
    (Blamed (Surroundings.prepare ⟨base, chain, [], []⟩) goal r t ∧
      Rooted (Requires base chain) roots goal r t) ∧
    Sound (Surroundings.prepare ⟨base, chain, [], []⟩) goal r t ∧ t.Valid goal ∧
      (Crew.solo r me t).Coherent
  have keeps : ∀ {r r' t t'}, Transition (l.surroundings files) me r t r' t' → P r t →
      P r' t' := by
    rintro r r' t t' moved ⟨⟨blamed, rooted⟩, sound, valid, coherent⟩
    exact ⟨⟨blamed.step moved sound valid coherent same whole,
      rooted.step moved valid coherent sources⟩, sound.step moved valid coherent same whole,
      moved.valid valid, coherent.move_solo moved⟩
  have start : P l.registry t := ⟨⟨begins.blamed h.cycles, begins.rooted h.grown asks⟩,
    begins.sound h.truthful.kept, begins.valid, begins.coherent rested me⟩
  obtain ⟨⟨blamed, rooted⟩, _⟩ := runSteps_keeps (P := P) keeps fuel start
  rw [ended] at blamed
  exact ⟨blamed.exact, rooted.grown, blamed.ended ending rfl⟩

theorem load {id : ModuleId} (asked : id ∈ roots) :
    (l.load files id).1.Traced chain base roots ∧
      (Reply.ending (l.load files id).2).Kept (l.load files id).1.registry := by
  obtain ⟨_, ending, ended, _⟩ := h.truthful.idle.mainRun files (.load id)
  obtain ⟨cycles, grown, kept⟩ := h.run holds (.load id) (Thread.asksWithin_load asked) ended
  have truthful := (h.truthful.load holds id).1
  rw [Loader.load, runMain_eq] at truthful ⊢
  refine ⟨⟨truthful, cycles, grown⟩, fun e told => ?_⟩
  rw [ended] at told
  exact kept e told

theorem loadWithin {id : ModuleId} (asked : id ∈ roots) (milliseconds : Nat) :
    (l.loadWithin files id milliseconds).1.Traced chain base roots ∧
      (Reply.outcome (l.loadWithin files id milliseconds).2).Kept
        (l.loadWithin files id milliseconds).1.registry := by
  obtain ⟨_, ending, ended, fits⟩ := h.truthful.idle.spawnRun files id
  obtain ⟨cycles, grown, kept⟩ := h.run holds (.load id) (Thread.asksWithin_load asked) ended
  obtain ⟨truthful, _⟩ := h.truthful.loadWithin holds id milliseconds
  have left : (l.loadWithin files id milliseconds).1.registry = (l.spawnRun files id).1 := by
    have same : (l.loadWithin files id milliseconds).1 = (l.spawn files id).1 := rfl
    rw [same, h.truthful.idle.spawn_eq files id]
  have told : (l.loadWithin files id milliseconds).2 = outcomeOf id ending := by
    have found := h.truthful.idle.spawn_ending files id
    rw [ended] at found
    unfold Loader.loadWithin
    generalize l.spawn files id = out at found
    obtain ⟨l', thread⟩ := out
    dsimp only at found ⊢
    rw [found]
    rfl
  refine ⟨⟨truthful, by rw [left]; exact cycles, by rw [left]; exact grown⟩, ?_⟩
  rw [left, told]
  intro e failed
  cases ending with
  | loaded o =>
    refine kept e ?_
    cases o with
    | error cause => exact failed
    | ok m => cases failed
  | ran => cases fits
  | broken =>
    cases failed
    exact LoadError.kept_of_not_cycle rfl

theorem runScript (name : String) {text : String} (scope : Namespace)
    (asked : ∀ q ∈ Form.requiredBy text, q ∈ roots) :
    (l.runScript files name text scope).1.Traced chain base roots ∧
      (Reply.ending (l.runScript files name text scope).2).Kept
        (l.runScript files name text scope).1.registry := by
  obtain ⟨cells, waits⟩ := l.registry.compile_quiet (.script name) name text
  unfold Loader.runScript
  cases compiled : l.registry.compile (.script name) name text with
  | mk r result =>
    rw [compiled] at cells waits
    have h' := h.congr cells waits
    have outcome := l.registry.compile_result (.script name) name text
    rw [compiled] at outcome
    cases parsed : Form.compile (BodyUnit.script name).isModule text with
    | error fault =>
      rw [parsed] at outcome
      obtain rfl : result = .error (.compile name fault.span fault.message) := outcome
      refine ⟨h', ?_⟩
      rintro e ⟨⟩
      exact LoadError.kept_of_not_cycle rfl
    | ok p =>
      rw [parsed] at outcome
      obtain rfl : result = .ok p := outcome
      have begins : Thread.Begins none (.body (.start (.script name) name scope p)) :=
        .script rfl rfl
      unfold Form.requiredBy at asked
      rw [show Form.compile false text = .ok p from parsed] at asked
      have within := Thread.asksWithin_script asked (.script name) name scope
      obtain ⟨_, ending, ended, _⟩ := h'.truthful.idle.mainRun files begins
      obtain ⟨cycles, grown, kept⟩ := h'.run holds begins within ended
      have truthful := h.truthful.runScript holds name text scope
      unfold Loader.runScript at truthful
      rw [compiled] at truthful
      simp only [runMain_eq] at truthful ⊢
      refine ⟨⟨truthful, cycles, grown⟩, fun e told => ?_⟩
      rw [ended] at told
      exact kept e told

end Loader.Traced

/-- A module failed for a cycle: a closed chain of different modules, each of which requires the
next one, and all of which failed so; and the module is one of them or requires one that failed
so. -/
structure ExactCycle (R : ModuleId → ModuleId → Prop) (r : Registry) (id : ModuleId)
    (path : List ModuleId) : Prop where
  length : 2 ≤ path.length
  closed : path.head? = path.getLast?
  once : path.dropLast.Nodup
  linked : path.IsChain R
  members : ∀ m ∈ path, r.state m = .failed (.cycle path)
  cause : id ∈ path ∨ ∃ q, R id q ∧ r.state q = .failed (.cycle path)

theorem exactCycle_of_ring {files : FileTree} {chain : Chain} {r : Registry}
    {id first : ModuleId} {more : List ModuleId}
    (cycles : r.Exact (Surroundings.prepare ⟨files, chain, [], []⟩))
    (ring : Ring (Leans (Surroundings.prepare ⟨files, chain, [], []⟩)) first more)
    (fails : r.FailsOn (first :: more ++ [first]) id) :
    ExactCycle (Requires files chain) r id (first :: more ++ [first]) := by
  refine ⟨by simp, by rw [List.getLast?_concat]; rfl, ?_,
    ring.linked.imp fun _ _ => Leans.requires, fun m mem => ?_, ?_⟩
  · rw [List.dropLast_concat]
    exact ring.once
  · exact Registry.state_eq_failed_iff.mpr (cycles.members _ id fails m mem)
  · obtain inside | ⟨q, leans, failed⟩ := cycles.cause _ id fails
    · exact .inl inside
    · exact .inr ⟨q, leans.requires, Registry.state_eq_failed_iff.mpr failed⟩

/-- A module that failed for a cycle leads to one. -/
theorem Loader.Traced.failed {chain : Chain} {files : FileTree} {roots : List ModuleId}
    {l : Loader} (h : l.Traced chain files roots) {id : ModuleId}
    {e : LoadError} (failed : l.registry.state id = .failed e) (cycle : e.isCycle = true) :
    (∃ path, e = .cycle path ∧ ExactCycle (Requires files chain) l.registry id path) ∧
      ∃ first, ReflTransGen (Requires files chain) id first ∧
        TransGen (Requires files chain) first first := by
  have done := Registry.state_eq_failed_iff.mp failed
  obtain ⟨first, more, rfl, reach, ring⟩ := (h.truthful.kept id _ done).of_isCycle
    (fun _ _ => Surroundings.prepare_isCycle) cycle
  refine ⟨⟨_, rfl, exactCycle_of_ring h.cycles ring done⟩, first, ?_, ?_⟩
  · exact ReflTransGen.mono (fun _ _ => Leans.requires) _ _ reach
  · exact TransGen.mono (fun _ _ => Leans.requires) _ _ (ring.transGen List.mem_cons_self)

namespace Runtime

variable {chain : Chain} {base files : FileTree} {roots : List ModuleId} {rt : Runtime}

section
variable (h : rt.loader.Traced chain base roots)
  (holds : Surroundings.prepare ⟨files, chain, [], []⟩ =
    Surroundings.prepare ⟨base, chain, [], []⟩)
include h holds

theorem eval_traced (top : Nat) (name : String) {text : String}
    (asked : ∀ q ∈ Form.requiredBy text, q ∈ roots) :
    let after := rt.evalOn top fun t => t.eval rt.loader files name text
    after.1.loader.Traced chain base roots ∧ after.2.Kept after.1.loader.registry := by
  unfold evalOn
  cases rt.tops[top]? with
  | none => exact ⟨h, fun e none => by cases none⟩
  | some t =>
    obtain ⟨traced, kept⟩ := h.runScript holds name t.scope asked
    refine ⟨traced, fun e told => kept e ?_⟩
    simp only [TopLevel.eval] at told
    generalize (rt.loader.runScript files name text t.scope).2 = ending at told
    -- A script is said to fail only when it ran and failed.
    rcases ending with _ | ⟨o⟩ | ⟨scope, _ | _⟩ | ⟨_ | _⟩ <;> cases told
    rfl

theorem call_traced {call : Call} (plain : ∀ id module, call ≠ .register id module)
    (asked : ∀ q ∈ call.asked files, q ∈ roots) :
    (rt.call files call).1.loader.Traced chain base roots ∧
      (rt.call files call).2.Kept (rt.call files call).1.loader.registry := by
  cases call with
  | load id | topLevel id => exact h.load holds (asked id (by simp [Call.asked, Call.target?]))
  | loadPath path =>
    simp only [Call.asked, Call.target?] at asked
    simp only [Runtime.call, Loader.loadPath]
    cases parsed : ModuleId.parse path with
    | ok id => exact h.load holds (asked id (by simp [parsed, Except.toOption]))
    | error fault =>
      refine ⟨h, ?_⟩
      rintro e ⟨⟩
      exact LoadError.kept_of_not_cycle rfl
  | loadWithin id ms =>
    exact h.loadWithin holds (asked id (by simp [Call.asked, Call.target?])) ms
  | register id module => exact absurd rfl (plain id module)
  | eval top name text => exact eval_traced h holds top name asked
  | loadFile top path =>
    simp only [Call.asked] at asked
    simp only [Runtime.call, TopLevel.evalFile]
    cases read : files.readText path with
    | ok text =>
      rw [read] at asked
      exact eval_traced h holds top path asked
    | error fault =>
      unfold evalOn
      cases rt.tops[top]? with
      | none => exact ⟨h, fun e none => by cases none⟩
      | some t =>
        refine ⟨h, ?_⟩
        rintro e ⟨⟩
        exact LoadError.kept_of_not_cycle rfl
  | state id =>
    refine ⟨h, fun e told cycle => ?_⟩
    have done := Registry.state_eq_failed_iff.mp (Reply.error?_state.mp told)
    obtain ⟨first, more, rfl, _⟩ := (h.truthful.kept id _ done).of_isCycle
      (fun _ _ => Surroundings.prepare_isCycle) cycle
    exact ⟨_, id, rfl, done⟩
  | emptyTopLevel | define | lookup | loadedModules => exact ⟨h, fun e none => by cases none⟩

end

theorem run_traced {ops : List (FileTree × Call)} (steady : Steady chain base ops)
    (asked : ∀ op ∈ ops, ∀ q ∈ op.2.asked op.1, q ∈ roots)
    (h : rt.loader.Traced chain base roots) : (rt.run ops).loader.Traced chain base roots := by
  induction ops generalizing rt with
  | nil => exact h
  | cons op rest ih =>
    obtain ⟨first, later⟩ := List.forall_mem_cons.mp steady
    obtain ⟨asks, askLater⟩ := List.forall_mem_cons.mp asked
    have holds := steady.holds List.mem_cons_self
    exact ih later askLater (call_traced h holds first.1 asks).1

theorem traced_create (chain : Chain) (base : FileTree) (recorder : Recorder)
    (roots : List ModuleId) : (create chain recorder []).loader.Traced chain base roots := by
  have nobody : ∀ path id, ¬(create chain recorder []).loader.registry.FailsOn path id := by
    intro path id fails
    cases fails
  refine ⟨truthful_create chain _ recorder, ⟨?_, ?_⟩, fun id none => by cases none⟩
  · intro path id fails
    exact absurd fails (nobody path id)
  · intro path id fails
    exact absurd fails (nobody path id)

/-- What operations in a row are answered with. -/
def replies (rt : Runtime) : List (FileTree × Call) → List Reply
  | [] => []
  | (files, call) :: rest => (rt.call files call).2 :: replies (rt.call files call).1 rest

/-- A cycle that a reply tells of is still kept when all operations are over. -/
theorem replies_kept {ops : List (FileTree × Call)} (steady : Steady chain base ops)
    (asked : ∀ op ∈ ops, ∀ q ∈ op.2.asked op.1, q ∈ roots)
    (h : rt.loader.Traced chain base roots) :
    ∀ reply ∈ rt.replies ops, reply.Kept (rt.run ops).loader.registry := by
  induction ops generalizing rt with
  | nil =>
    intro reply none
    cases none
  | cons op rest ih =>
    obtain ⟨first, later⟩ := List.forall_mem_cons.mp steady
    obtain ⟨asks, askLater⟩ := List.forall_mem_cons.mp asked
    obtain ⟨traced, kept⟩ := call_traced h (steady.holds List.mem_cons_self) first.1 asks
    refine List.forall_mem_cons.mpr ⟨fun e told cycle => ?_, ih later askLater traced⟩
    obtain ⟨path, id, same, fails⟩ := kept e told cycle
    exact ⟨path, id, same, kept_run traced.truthful.idle rest fails⟩

/-- Cycle failures are exact, whatever is loaded and run over contents that stay as they are. They
are never wrapped; each names a cycle of requirements, with which all of its modules have failed,
and a reply tells of one only if some module has failed with it. If none of the modules that were
loaded, or required by scripts that came to it, leads to a cycle, there are none. -/
theorem cycles_exact (chain : Chain) (files : FileTree) (recorder : Recorder)
    {ops : List (FileTree × Call)} (steady : Steady chain files ops) :
    let rt := create chain recorder []
    let registry := (rt.run ops).loader.registry
    (∀ id e, registry.state id = .failed e → e.isCycle = true →
      ∃ path, e = .cycle path ∧ ExactCycle (Requires files chain) registry id path) ∧
    (∀ reply ∈ rt.replies ops, ∀ e, reply.error? = some e → e.isCycle = true →
      ∃ id, registry.state id = .failed e) ∧
    ((∀ op ∈ ops, ∀ root ∈ op.2.asked op.1, registry.state root ≠ .unloaded →
        ∀ id, ReflTransGen (Requires files chain) root id →
          ¬TransGen (Requires files chain) id id) →
      (∀ id e, registry.state id = .failed e → e.isCycle = false) ∧
      ∀ reply ∈ rt.replies ops, ∀ e, reply.error? = some e → e.isCycle = false) := by
  intro rt registry
  have asked : ∀ op ∈ ops, ∀ q ∈ op.2.asked op.1, q ∈ ops.flatMap fun op => op.2.asked op.1 :=
    fun op mem q asks => List.mem_flatMap.mpr ⟨op, mem, asks⟩
  have start := traced_create chain files recorder (ops.flatMap fun op => op.2.asked op.1)
  have traced := run_traced steady asked start
  have told : ∀ reply ∈ rt.replies ops, ∀ e, reply.error? = some e → e.isCycle = true →
      ∃ id, registry.state id = .failed e := by
    intro reply mem e failed cycle
    obtain ⟨path, id, rfl, fails⟩ := replies_kept steady asked start reply mem e failed cycle
    exact ⟨id, Registry.state_eq_failed_iff.mpr fails⟩
  refine ⟨fun id e failed cycle => (traced.failed failed cycle).1, told, fun acyclic => ?_⟩
  have none : ∀ id e, registry.state id = .failed e → e.isCycle = false := by
    intro id e failed
    by_contra cycle
    obtain ⟨_, first, reach, loop⟩ := traced.failed failed (by simpa using cycle)
    have claimed : id ∈ registry.claimed :=
      Registry.mem_claimed_iff.mpr ⟨_, Registry.state_eq_failed_iff.mp failed⟩
    obtain ⟨root, inside, known, grown⟩ := traced.grown id claimed
    obtain ⟨op, mem, asks⟩ := List.mem_flatMap.mp inside
    refine acyclic op mem root asks ?_ first (grown.trans reach) loop
    rw [Ne, Registry.state_eq_unloaded_iff, Registry.cell?_eq_none_iff]
    exact not_not.mpr known
  refine ⟨none, fun reply mem e failed => ?_⟩
  by_contra cycle
  obtain ⟨id, kept⟩ := told reply mem e failed (by simpa using cycle)
  exact cycle (none id e kept)

/-- Two modules that require each other, and a third one that a script requires and that requires
one of them; and a module that fails by itself. -/
theorem cycles_exact_outside :
    let files : FileTree :=
      ⟨[(["src"], .dir),
        (["src", "a.loam"], .file (Utf8.encode "[\"require\", \"/b\"]")),
        (["src", "b.loam"], .file (Utf8.encode "[\"require\", \"/a\"]")),
        (["src", "c.loam"], .file (Utf8.encode "[\"require\", \"/a\"]")),
        (["src", "d.loam"], .file (Utf8.encode "[\"raise\", \"no\"]"))], []⟩
    let a : ModuleId := ⟨"/a", by decide⟩
    let b : ModuleId := ⟨"/b", by decide⟩
    let c : ModuleId := ⟨"/c", by decide⟩
    let d : ModuleId := ⟨"/d", by decide⟩
    let ops : List (FileTree × Call) :=
      [(files, .emptyTopLevel), (files, .eval 0 "main" "[\"require\", \"/c\"]"), (files, .load b)]
    (Steady [.directory "/"] files ops ∧
      ExactCycle (Requires files [.directory "/"])
        ((create [.directory "/"] .off []).run ops).loader.registry c [a, b, a]) ∧
    Steady [.directory "/"] files [(files, .load d)] ∧
      (∀ id, ReflTransGen (Requires files [.directory "/"]) d id →
        ¬TransGen (Requires files [.directory "/"]) id id) ∧
      ∀ reply ∈ (create [.directory "/"] .off []).replies [(files, .load d)],
        ∀ e, reply.error? = some e → e.isCycle = false := by
  intro files a b c d ops
  have steady : Steady [.directory "/"] files ops := by
    intro op mem
    simp only [ops, List.mem_cons, List.not_mem_nil, or_false] at mem
    obtain rfl | rfl | rfl := mem <;> exact ⟨by simp, fun _ => rfl⟩
  have steady' : Steady [.directory "/"] files [(files, .load d)] := by
    intro op mem
    rw [List.mem_singleton.mp mem]
    exact ⟨by simp, fun _ => rfl⟩
  have failed : ((create [.directory "/"] .off []).run ops).loader.registry.state c =
      .failed (.cycle [a, b, a]) :=
    Reply.error?_state.mp (by decide +kernel)
  have alone : (Surroundings.prepare ⟨files, [.directory "/"], [], []⟩ d).required = [] := by
    decide +kernel
  have nothing : ∀ x, ¬Requires files [.directory "/"] d x := by
    intro x requires
    rw [requires_iff, alone] at requires
    cases requires
  have acyclic : ∀ id, ReflTransGen (Requires files [.directory "/"]) d id →
      ¬TransGen (Requires files [.directory "/"]) id id := by
    intro id reach loop
    obtain rfl | ⟨x, step, _⟩ := reach.cases_head
    · obtain ⟨x, step, _⟩ := TransGen.head'_iff.mp loop
      exact nothing x step
    · exact nothing x step
  refine ⟨⟨steady, ?_⟩, steady', acyclic, ?_⟩
  · obtain ⟨path, same, exactly⟩ := (cycles_exact _ files .off steady).1 c _ failed rfl
    cases same
    exact exactly
  · refine ((cycles_exact _ files .off steady').2.2 fun op mem root asks _ => ?_).2
    rw [List.mem_singleton.mp mem] at asks
    obtain rfl : root = d := by simpa [Call.asked, Call.target?] using asks
    exact acyclic

end Runtime
end ModuleSystem
