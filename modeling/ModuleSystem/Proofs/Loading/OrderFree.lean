import ModuleSystem.Proofs.Loading.Once
import ModuleSystem.Proofs.Loading.Sound

namespace ModuleSystem

theorem Surroundings.prepare_congr {s s' : Surroundings} {id : ModuleId}
    (h : s.find id = s'.find id) : s.prepare id = s'.prepare id := by
  rw [prepare, h, prepare]

/-- A load that has ended tells an outcome. -/
theorem Sound.told {lib : Library} {id : ModuleId} {r : Registry} {e : Ending}
    (h : Sound lib (some id) r ⟨[], .ended e⟩) (fits : e.Fits (some id)) :
    ∃ o, e = .loaded o ∧ Verdict lib id o := by
  have sound := h.control
  cases e with
  | loaded o => exact ⟨o, rfl, sound id rfl⟩
  | ran => cases fits
  | broken => exact sound.elim

namespace Loader

/-- All that a loader keeps may be told, and nothing breaks off. -/
structure Truthful (chain : Chain) (lib : Library) (l : Loader) : Prop where
  idle : l.Idle
  fixed : l.chain = chain ∧ l.broken = []
  kept : ∀ id o, l.registry.cell? id = some (.done o) → Verdict lib id o

namespace Truthful

variable {chain : Chain} {lib : Library} {l : Loader} {files : FileTree}

theorem same (h : l.Truthful chain lib)
    (holds : Surroundings.prepare ⟨files, chain, [], []⟩ = lib) :
    (l.surroundings files).prepare = lib := by
  rw [surroundings, h.fixed.1, h.fixed.2, h.idle.unheld, holds]

/-- The same for what an operation leaves, if all that it keeps may be told. -/
theorem serves {l' : Loader} {acts : List Act} (h : l.Truthful chain lib)
    (serves : l.Serves l' acts)
    (kept : ∀ id o, l'.registry.cell? id = some (.done o) → Verdict lib id o) :
    l'.Truthful chain lib :=
  ⟨serves.idle, ⟨serves.fixed.1.trans h.fixed.1, serves.fixed.2.trans h.fixed.2⟩, kept⟩

theorem mainRun {goal : Option ModuleId} {t : Thread} (h : l.Truthful chain lib)
    (holds : Surroundings.prepare ⟨files, chain, [], []⟩ = lib) (begins : t.Begins goal) :
    Sound lib goal (l.mainRun files t).1 (l.mainRun files t).2 :=
  h.idle.rested.sound_run begins (h.same holds) h.fixed.2 h.kept _

theorem load (h : l.Truthful chain lib)
    (holds : Surroundings.prepare ⟨files, chain, [], []⟩ = lib) (id : ModuleId) :
    (l.load files id).1.Truthful chain lib ∧
      ∃ o, (l.load files id).2 = some (.loaded o) ∧ Verdict lib id o := by
  have sound := h.mainRun holds (.load id)
  refine ⟨h.serves (h.idle.load files id) sound.kept, ?_⟩
  obtain ⟨_, e, ended, fits⟩ := h.idle.mainRun files (.load id)
  rw [Loader.load, runMain_eq]
  rw [ended] at sound ⊢
  obtain ⟨o, rfl, verdict⟩ := sound.told fits
  exact ⟨o, rfl, verdict⟩

theorem loadWithin (h : l.Truthful chain lib)
    (holds : Surroundings.prepare ⟨files, chain, [], []⟩ = lib) (id : ModuleId)
    (milliseconds : Nat) :
    (l.loadWithin files id milliseconds).1.Truthful chain lib ∧
      Verdict lib id (l.loadWithin files id milliseconds).2 := by
  have sound : Sound lib (some id) (l.spawnRun files id).1 (l.spawnRun files id).2 :=
    h.idle.rested.sound_run (.load id) (h.same holds) h.fixed.2 h.kept _
  obtain ⟨_, e, ended, fits⟩ := h.idle.spawnRun files id
  have after := h.idle.spawn_eq files id
  have ending := h.idle.spawn_ending files id
  constructor
  · have left : (l.loadWithin files id milliseconds).1 = (l.spawn files id).1 := rfl
    rw [left]
    refine h.serves (h.idle.spawn files id) ?_
    rw [after]
    exact sound.kept
  · rw [ended] at sound ending
    obtain ⟨o, rfl, verdict⟩ := sound.told fits
    rw [Loader.loadWithin]
    generalize l.spawn files id = out at ending
    obtain ⟨l', thread⟩ := out
    dsimp only at ending ⊢
    rw [ending]
    exact verdict

theorem runScript (h : l.Truthful chain lib)
    (holds : Surroundings.prepare ⟨files, chain, [], []⟩ = lib) (name text : String)
    (scope : Namespace) : (l.runScript files name text scope).1.Truthful chain lib := by
  refine h.serves (h.idle.runScript files name text scope) ?_
  obtain ⟨cells, waits⟩ := l.registry.compile_quiet (.script name) name text
  rw [Loader.runScript]
  generalize l.registry.compile (.script name) name text = out at cells waits
  obtain ⟨r, result⟩ := out
  have kept : ∀ id o, r.cell? id = some (.done o) → Verdict lib id o := by
    intro id o done
    rw [Registry.cell?_congr cells] at done
    exact h.kept id o done
  cases result with
  | error e => exact kept
  | ok p =>
    have h' : Loader.Truthful chain lib { l with registry := r } :=
      ⟨h.idle.withRegistry (h.idle.rested.congr cells waits), h.fixed, kept⟩
    have unit : (Body.start (.script name) name scope p).unit = .script name := rfl
    exact (h'.mainRun holds (.script unit rfl)).kept

end Truthful
end Loader

namespace Runtime

variable {chain : Chain} {lib : Library} {rt : Runtime} {files : FileTree}

theorem eval_truthful (h : rt.loader.Truthful chain lib)
    (holds : Surroundings.prepare ⟨files, chain, [], []⟩ = lib) (top : Nat) (name text : String) :
    (rt.evalOn top fun t => t.eval rt.loader files name text).1.loader.Truthful chain lib := by
  unfold evalOn
  cases rt.tops[top]? with
  | none => exact h
  | some t => exact h.runScript holds name text t.scope

theorem call_truthful (h : rt.loader.Truthful chain lib)
    (holds : Surroundings.prepare ⟨files, chain, [], []⟩ = lib) {call : Call}
    (plain : ∀ id module, call ≠ .register id module) :
    (rt.call files call).1.loader.Truthful chain lib ∧
      ∀ id, call.target? = some id →
        ∃ o, (rt.call files call).2.outcome? = some o ∧ Verdict lib id o := by
  cases call with
  | load x | topLevel x =>
    obtain ⟨after, o, told, verdict⟩ := h.load holds x
    refine ⟨after, ?_⟩
    rintro id ⟨⟩
    refine ⟨o, ?_, verdict⟩
    simp only [Runtime.call, told, Reply.outcome?]
  | loadPath path =>
    simp only [Runtime.call, Loader.loadPath, Call.target?]
    cases ModuleId.parse path with
    | error e => exact ⟨h, fun id target => by cases target⟩
    | ok x =>
      obtain ⟨after, o, told, verdict⟩ := h.load holds x
      refine ⟨after, ?_⟩
      rintro id ⟨⟩
      refine ⟨o, ?_, verdict⟩
      simp only [told, Reply.outcome?]
  | loadWithin x milliseconds =>
    obtain ⟨after, verdict⟩ := h.loadWithin holds x milliseconds
    refine ⟨after, ?_⟩
    rintro id ⟨⟩
    exact ⟨_, rfl, verdict⟩
  | register id module => exact absurd rfl (plain id module)
  | eval top name text =>
    exact ⟨eval_truthful h holds top name text, fun id target => by cases target⟩
  | loadFile top path =>
    refine ⟨?_, fun id target => by cases target⟩
    simp only [Runtime.call, TopLevel.evalFile]
    cases files.readText path with
    | ok text => exact eval_truthful h holds top path text
    | error e =>
      unfold evalOn
      cases rt.tops[top]? <;> exact h
  | emptyTopLevel | define | lookup | state | loadedModules =>
    exact ⟨h, fun id target => by cases target⟩

/-- Loads and scripts, while the repositories of a chain hold what they hold in `files`. -/
def Steady (chain : Chain) (files : FileTree) (ops : List (FileTree × Call)) : Prop :=
  ∀ op ∈ ops, (∀ id module, op.2 ≠ .register id module) ∧
    ∀ id, Surroundings.find ⟨op.1, chain, [], []⟩ id = Surroundings.find ⟨files, chain, [], []⟩ id

theorem Steady.holds {ops : List (FileTree × Call)} (steady : Steady chain files ops)
    {op : FileTree × Call} (mem : op ∈ ops) :
    Surroundings.prepare ⟨op.1, chain, [], []⟩ = Surroundings.prepare ⟨files, chain, [], []⟩ := by
  funext id
  exact Surroundings.prepare_congr ((steady op mem).2 id)

theorem run_truthful {ops : List (FileTree × Call)} (steady : Steady chain files ops)
    (h : rt.loader.Truthful chain (Surroundings.prepare ⟨files, chain, [], []⟩)) :
    (rt.run ops).loader.Truthful chain (Surroundings.prepare ⟨files, chain, [], []⟩) := by
  induction ops generalizing rt with
  | nil => exact h
  | cons op rest ih =>
    obtain ⟨first, later⟩ := List.forall_mem_cons.mp steady
    have holds := steady.holds List.mem_cons_self
    exact ih later (call_truthful h holds first.1).1

/-- Operations tell the outcome of a module if a load of the module is answered with it, or if it is
what has become of the module in the end. -/
inductive Tells (rt : Runtime) (ops : List (FileTree × Call)) (id : ModuleId) (o : Outcome) : Prop
  | reply (before after : List (FileTree × Call)) {files : FileTree} {call : Call}
      (split : ops = before ++ (files, call) :: after) (target : call.target? = some id)
      (told : ((rt.run before).call files call).2.outcome? = some o)
  | kept (state : ((rt.run ops).loader.registry.state id).outcome? = some o)

/-- Every load is answered with an outcome. -/
def Answers (rt : Runtime) (ops : List (FileTree × Call)) : Prop :=
  ∀ before files call after, ops = before ++ (files, call) :: after →
    ∀ id, call.target? = some id → ∃ o, ((rt.run before).call files call).2.outcome? = some o

theorem truthful_create (chain : Chain) (lib : Library) (recorder : Recorder) :
    (create chain recorder []).loader.Truthful chain lib :=
  ⟨idle_create chain recorder [], ⟨rfl, rfl⟩, fun id o done => by cases done⟩

section

variable {ops : List (FileTree × Call)} (steady : Steady chain files ops) (recorder : Recorder)

include steady

theorem reply_verdict {before after : List (FileTree × Call)} {files' : FileTree} {call : Call}
    {id : ModuleId} (split : ops = before ++ (files', call) :: after)
    (target : call.target? = some id) :
    ∃ o, (((create chain recorder []).run before).call files' call).2.outcome? = some o ∧
      Verdict (Surroundings.prepare ⟨files, chain, [], []⟩) id o := by
  subst split
  have mem : (files', call) ∈ before ++ (files', call) :: after := by simp
  have earlier : Steady chain files before := fun op mem =>
    steady op (List.mem_append_left _ mem)
  have truthful := run_truthful earlier (truthful_create chain _ recorder)
  exact (call_truthful truthful (steady.holds mem) (steady _ mem).1).2 id target

theorem tells_verdict {id : ModuleId} {o : Outcome}
    (tells : (create chain recorder []).Tells ops id o) :
    Verdict (Surroundings.prepare ⟨files, chain, [], []⟩) id o := by
  cases tells with
  | reply before after split target told =>
    obtain ⟨o', told', verdict⟩ := reply_verdict steady recorder split target
    rw [told] at told'
    cases told'
    exact verdict
  | kept state =>
    have truthful := run_truthful steady (truthful_create chain _ recorder)
    exact truthful.kept id o (Registry.outcome?_state_iff.mp state)

end

/-- Whatever two fresh runtimes load and run over the same contents, in whatever order: each load is
answered, and what they tell of a module agrees. -/
theorem order_free (chain : Chain) (files : FileTree) (recorder recorder' : Recorder)
    {ops ops' : List (FileTree × Call)} (steady : Steady chain files ops)
    (steady' : Steady chain files ops') :
    let rt := create chain recorder []
    let rt' := create chain recorder' []
    rt.Answers ops ∧ rt'.Answers ops' ∧
      ∀ id o o', rt.Tells ops id o → rt'.Tells ops' id o' → o.Agrees o' := by
  refine ⟨fun before _ _ after split id target => ?_, fun before _ _ after split id target => ?_,
    fun id o o' tells tells' => ?_⟩
  · obtain ⟨o, told, _⟩ := reply_verdict steady recorder split target
    exact ⟨o, told⟩
  · obtain ⟨o, told, _⟩ := reply_verdict steady' recorder' split target
    exact ⟨o, told⟩
  · exact (tells_verdict steady recorder tells).agrees (tells_verdict steady' recorder' tells')

/-- Two modules that require each other, loaded in both orders: what is told of `/a` agrees. -/
theorem order_free_two_orders :
    let files : FileTree :=
      ⟨[(["src"], .dir),
        (["src", "a.loam"], .file "[\"require\", \"/b\"]".toUTF8.toList),
        (["src", "b.loam"], .file "[\"require\", \"/a\"]".toUTF8.toList)], []⟩
    let a : ModuleId := ⟨"/a", by decide⟩
    let b : ModuleId := ⟨"/b", by decide⟩
    let rt := create [.directory "/"] .off []
    ∃ o o', (rt.call files (.load a)).2.outcome? = some o ∧
      ((rt.call files (.load b)).1.call files (.load a)).2.outcome? = some o' ∧ o.Agrees o' := by
  intro files a b rt
  have steady : Steady [.directory "/"] files [(files, .load a), (files, .load b)] := by
    intro op mem
    simp only [List.mem_cons, List.not_mem_nil, or_false] at mem
    obtain rfl | rfl := mem <;> exact ⟨by simp, fun _ => rfl⟩
  have steady' : Steady [.directory "/"] files [(files, .load b), (files, .load a)] := by
    intro op mem
    simp only [List.mem_cons, List.not_mem_nil, or_false] at mem
    obtain rfl | rfl := mem <;> exact ⟨by simp, fun _ => rfl⟩
  obtain ⟨answers, answers', agree⟩ := order_free _ files .off .off steady steady'
  obtain ⟨o, told⟩ := answers [] files (.load a) [(files, .load b)] rfl a rfl
  obtain ⟨o', told'⟩ := answers' [(files, .load b)] files (.load a) [] rfl a rfl
  exact ⟨o, o', told, told', agree a o o' (.reply [] [(files, .load b)] rfl rfl told)
    (.reply [(files, .load b)] [] rfl rfl told')⟩

end Runtime
end ModuleSystem
