import ModuleSystem.Proofs.Loading.Once

/-! A module is loaded when all that it required is loaded, and not before. So the modules that are
loaded come in layers: each depends on earlier ones only. -/

namespace ModuleSystem

open Relation (TransGen)

namespace Registry

/-- The module `a` is loaded, and it required `b`. -/
def DependsOn (r : Registry) (a b : ModuleId) : Prop :=
  ∃ m, r.state a = .loaded m ∧ b ∈ m.dependencies

/-- Loaded modules stand at their own places, depend on loaded modules only, on each of them once,
and on none of them in a circle. -/
structure Layered (r : Registry) : Prop where
  named : ∀ id m, r.state id = .loaded m → m.id = id
  once : ∀ id m, r.state id = .loaded m → m.dependencies.Nodup
  closed : ∀ a b, r.DependsOn a b → ∃ m, r.state b = .loaded m
  acyclic : ∀ id, ¬TransGen r.DependsOn id id

/-- A list of different modules that are all loaded. -/
structure Holds (r : Registry) (ids : List ModuleId) : Prop where
  once : ids.Nodup
  loaded : ∀ id ∈ ids, ∃ m, r.state id = .loaded m

/-- Outcomes that `r` has are those of `r'` as well. -/
def Grows (r r' : Registry) : Prop :=
  ∀ id o, r.cell? id = some (.done o) → r'.cell? id = some (.done o)

theorem Grows.state {r r' : Registry} (h : r.Grows r') {id : ModuleId} {m : ModuleInstance}
    (loaded : r.state id = .loaded m) : r'.state id = .loaded m :=
  state_eq_loaded_iff.mpr (h id _ (state_eq_loaded_iff.mp loaded))

namespace Holds

variable {r r' : Registry} {ids : List ModuleId}

theorem nil : r.Holds [] := ⟨List.nodup_nil, fun id mem => by cases mem⟩

theorem grow (h : r.Holds ids) (grows : r.Grows r') : r'.Holds ids := by
  refine ⟨h.once, fun id mem => ?_⟩
  obtain ⟨m, loaded⟩ := h.loaded id mem
  exact ⟨m, grows.state loaded⟩

end Holds

namespace Layered

variable {r r' : Registry}

theorem of_empty (recorder : Recorder) : (empty recorder).Layered := by
  have unloaded : ∀ id m, (empty recorder).state id ≠ .loaded m := by
    intro id m loaded
    cases loaded
  have free : ∀ a b, ¬(empty recorder).DependsOn a b := by
    rintro a b ⟨m, loaded, _⟩
    exact unloaded a m loaded
  refine ⟨fun id m h => absurd h (unloaded id m), fun id m h => absurd h (unloaded id m),
    fun a b h => absurd h (free a b), fun id cycle => ?_⟩
  obtain ⟨_, edge, _⟩ := TransGen.head'_iff.mp cycle
  exact free _ _ edge

/-- Modules come on top of those that are loaded. Nothing depends on a new module yet, so that a
path of dependencies leaves it at once, and no path leads back. -/
theorem extend (h : r.Layered) (grows : r.Grows r')
    (fresh : ∀ id m, r'.state id = .loaded m →
      r.state id = .loaded m ∨ m.id = id ∧ r.Holds m.dependencies) : r'.Layered := by
  have named : ∀ id m, r'.state id = .loaded m → m.id = id := by
    intro id m loaded
    obtain old | ⟨named, _⟩ := fresh id m loaded
    · exact h.named id m old
    · exact named
  have once : ∀ id m, r'.state id = .loaded m → m.dependencies.Nodup := by
    intro id m loaded
    obtain old | ⟨_, holds⟩ := fresh id m loaded
    · exact h.once id m old
    · exact holds.once
  have target : ∀ a b, r'.DependsOn a b → ∃ m, r.state b = .loaded m := by
    rintro a b ⟨m, loaded, mem⟩
    obtain old | ⟨_, holds⟩ := fresh a m loaded
    · exact h.closed a b ⟨m, old, mem⟩
    · exact holds.loaded b mem
  have closed : ∀ a b, r'.DependsOn a b → ∃ m, r'.state b = .loaded m := by
    intro a b edge
    obtain ⟨m, loaded⟩ := target a b edge
    exact ⟨m, grows.state loaded⟩
  have old_edge : ∀ a b m, r.state a = .loaded m → r'.DependsOn a b → r.DependsOn a b := by
    rintro a b m old ⟨m', loaded, mem⟩
    have same : m = m' := by
      have both := (grows.state old).symm.trans loaded
      cases both
      rfl
    exact ⟨m, old, same ▸ mem⟩
  have old_path : ∀ a b m, r.state a = .loaded m → TransGen r'.DependsOn a b →
      TransGen r.DependsOn a b := by
    intro a b m old path
    induction path with
    | single edge => exact .single (old_edge _ _ m old edge)
    | tail path edge ih =>
      obtain ⟨_, middle⟩ := TransGen.tail'_iff.mp path
      obtain ⟨m', loaded⟩ := target _ _ middle.2
      exact ih.tail (old_edge _ _ m' loaded edge)
  refine ⟨named, once, closed, fun id cycle => ?_⟩
  obtain ⟨before, _, last⟩ := TransGen.tail'_iff.mp cycle
  obtain ⟨m, loaded⟩ := target before id last
  exact h.acyclic id (old_path id id m loaded cycle)

end Layered
end Registry

theorem Namespace.dependencies_provideAll (ns : Namespace) (names : List String) :
    (names.foldl provide ns).dependencies = ns.dependencies := by
  induction names generalizing ns with
  | nil => rfl
  | cons name rest ih => exact ih (ns.provide name)

namespace Body

variable {b b' : Body}

theorem perform_dependencies {form : Form.Located} (h : b.perform form = .ok b') :
    b'.scope.dependencies = b.scope.dependencies := by
  unfold perform at h
  cases kind : form.statement with
  | require | doc =>
    simp only [kind] at h
    cases h
    rfl
  | provide names =>
    simp only [kind] at h
    cases h
    exact b.scope.dependencies_provideAll names
  | define _ e | expr e =>
    simp only [kind] at h
    obtain ⟨v, _, h⟩ := Except.of_bind_ok h
    cases h
    rfl
  | raise e =>
    simp only [kind] at h
    obtain ⟨v, _, h⟩ := Except.of_bind_ok h
    cases h

theorem sealed_dependencies {id : ModuleId} {m : ModuleInstance} (h : b.sealed id = .ok m) :
    m.id = id ∧ m.dependencies = b.scope.dependencies := by
  unfold sealed at h
  split at h
  · next sealed =>
    cases h
    unfold Namespace.sealAs at sealed
    split at sealed
    · cases sealed
      exact ⟨rfl, rfl⟩
    · split at sealed
      · cases sealed
      · cases sealed
        exact ⟨rfl, rfl⟩
  · cases h

/-- Only a body all of whose forms ran makes a module. -/
theorem Departs.dependencies {control : Control} {r r₁ : Registry} {result : Except LoadError Unit}
    (departs : b.Departs r control r₁ result) {id : ModuleId} {m : ModuleInstance}
    (made : b.outcome id result = .ok m) : m.id = id ∧ m.dependencies = b.scope.dependencies := by
  cases departs with
  | finish => exact sealed_dependencies made
  | raise => cases made
  | refuse => cases made

theorem holds_receive {r : Registry} (h : r.Holds b.scope.dependencies) {m : ModuleInstance}
    (loaded : r.state m.id = .loaded m) : r.Holds (b.receive m).scope.dependencies := by
  have after : (b.receive m).scope.dependencies =
      if b.scope.dependencies.contains m.id then b.scope.dependencies
      else b.scope.dependencies ++ [m.id] := rfl
  rw [after]
  split
  · exact h
  · next absent =>
    rw [List.contains_iff_mem] at absent
    refine ⟨?_, fun id mem => ?_⟩
    · refine List.nodup_append.mpr ⟨h.once, by simp, ?_⟩
      rintro x mem y last rfl
      rw [List.mem_singleton.mp last] at mem
      exact absent mem
    · obtain old | last := List.mem_append.mp mem
      · exact h.loaded id old
      · rw [List.mem_singleton.mp last]
        exact ⟨m, loaded⟩

end Body

theorem Surroundings.prepare_dependencies {s : Surroundings} {id : ModuleId} {m : ModuleInstance}
    (h : s.prepare id = .outcome (.ok m)) : m.id = id ∧ m.dependencies = [] := by
  unfold prepare at h
  split at h
  · cases h
  · next found =>
    cases h
    unfold find at found
    split at found
    · cases found
    · cases found
    · split at found
      · cases found
      · cases found
        exact ⟨rfl, rfl⟩
      · cases found
  · split at h <;> cases h

/-- Whatever a thread has imported into the body of a module, and whatever it is about to import,
is loaded. -/
structure Thread.Supported (r : Registry) (t : Thread) : Prop where
  imported : ∀ b ∈ t.stack, ∀ id, b.unit = .module id → r.Holds b.scope.dependencies
  told : ∀ m, t.control = .answer (.ok m) → r.state m.id = .loaded m

namespace Thread.Supported

variable {r r' : Registry} {t : Thread}

theorem grow (h : t.Supported r) (grows : r.Grows r') : t.Supported r' :=
  ⟨fun b mem id unit => (h.imported b mem id unit).grow grows,
    fun m here => grows.state (h.told m here)⟩

/-- Another control over bodies that were there before. -/
theorem control (h : t.Supported r) {stack : List Body} {control : Control}
    (less : ∀ b ∈ stack, b ∈ t.stack) (told : ∀ m, control ≠ .answer (.ok m)) :
    Thread.Supported r ⟨stack, control⟩ :=
  ⟨fun b mem => h.imported b (less b mem), fun m here => absurd here (told m)⟩

/-- A thread without bodies. -/
theorem bare {control : Control} (told : ∀ m, control ≠ .answer (.ok m)) :
    Thread.Supported r ⟨[], control⟩ :=
  ⟨fun b mem => (by cases mem), fun m here => absurd here (told m)⟩

end Thread.Supported

theorem Thread.Begins.supported {goal : Option ModuleId} {t : Thread} (h : t.Begins goal)
    (r : Registry) : t.Supported r := by
  cases h with
  | load id => exact .bare fun m here => by cases here
  | script unit =>
    refine ⟨fun b mem id module => ?_, fun m here => by cases here⟩
    rw [List.mem_singleton.mp mem, unit] at module
    cases module

namespace Transition

variable {s : Surroundings} {me : ThreadId} {r r' : Registry} {t t' : Thread}

/-- A module that is loaded after a step was loaded before it, or it depends on modules that
were. -/
theorem loads (moved : Transition s me r t r' t') (supported : t.Supported r) {id : ModuleId}
    {m : ModuleInstance} (loaded : r'.state id = .loaded m) :
    r.state id = .loaded m ∨ m.id = id ∧ r.Holds m.dependencies := by
  rw [Registry.state_eq_loaded_iff] at loaded ⊢
  cases moved with
  | claim _ new =>
    rw [Registry.cell?_claim new] at loaded
    split at loaded
    · cases loaded
    · exact .inl loaded
  | settle ready =>
    obtain old | ⟨rfl, rfl⟩ := Registry.done_of_publish (s.noted_quiet _ _).1 loaded
    · exact .inl old
    · obtain ⟨named, none⟩ := Surroundings.prepare_dependencies ready
      right
      rw [none]
      exact ⟨named, .nil⟩
  | @leaveModule b below _ _ _ _ unit departs =>
    obtain old | ⟨rfl, made⟩ := Registry.done_of_publish departs.quiet.1 loaded
    · exact .inl old
    · obtain ⟨named, same⟩ := departs.dependencies made.symm
      right
      rw [same]
      exact ⟨named, supported.imported b List.mem_cons_self _ unit⟩
  | leaveScript _ departs =>
    rw [Registry.cell?_congr departs.quiet.1] at loaded
    exact .inl loaded
  | abandonModule unit =>
    obtain old | ⟨_, broken⟩ := Registry.done_of_publish rfl loaded
    · exact .inl old
    · cases broken
  | _ => exact .inl loaded

/-- What a thread publishes is there to be imported. -/
theorem supported (moved : Transition s me r t r' t') (grows : r.Grows r')
    (owned : ∀ id ∈ t.claims, r.cell? id = some (.loading me)) (layered : r.Layered)
    (supported : t.Supported r) : t'.Supported r' := by
  have seen : ∀ id m, r.cell? id = some (.done (.ok m)) → r'.state m.id = .loaded m := by
    intro id m found
    have loaded := Registry.state_eq_loaded_iff.mpr found
    rw [layered.named id m loaded]
    exact grows.state loaded
  have kept := supported.grow grows
  cases moved with
  | seen found | wake found =>
    refine ⟨kept.imported, fun m here => ?_⟩
    cases here
    exact seen _ m found
  | @settle stack id o ready =>
    refine ⟨kept.imported, fun m here => ?_⟩
    cases here
    have claimed : r.cell? id = some (.loading me) := owned id List.mem_cons_self
    rw [(Surroundings.prepare_dependencies ready).1, Registry.state_eq_loaded_iff,
      Registry.cell?_publish, if_pos rfl, Registry.cell?_congr (s.noted_quiet _ _).1, claimed]
    rfl
  | @leaveModule b below control r₁ result id unit departs =>
    refine ⟨fun x mem => kept.imported x (List.mem_cons_of_mem _ mem), fun m here => ?_⟩
    have made : b.outcome id result = .ok m := Control.answer.inj here
    have claimed : r.cell? id = some (.loading me) := by
      refine owned id ?_
      rw [(departs.claims (b :: below)).1, Thread.running_cons_module unit]
      exact List.mem_cons_self
    rw [(departs.dependencies made).1, Registry.state_eq_loaded_iff, Registry.cell?_publish,
      if_pos rfl, Registry.cell?_congr departs.quiet.1, claimed, made]
    rfl
  | begin ready =>
    refine ⟨fun x mem id unit => ?_, fun m here => by cases here⟩
    obtain rfl | old := List.mem_cons.mp mem
    · exact .nil
    · exact kept.imported x old id unit
  | @perform b b' below form rest noPending next done =>
    refine ⟨fun x mem id unit => ?_, fun m here => by cases here⟩
    obtain rfl | old := List.mem_cons.mp mem
    · rw [Body.perform_dependencies done]
      refine kept.imported b List.mem_cons_self id ?_
      rw [← unit, (Body.perform_spec noPending done).1]
    · exact kept.imported x (List.mem_cons_of_mem _ old) id unit
  | @receive b below m =>
    refine ⟨fun x mem id unit => ?_, fun m here => by cases here⟩
    obtain rfl | old := List.mem_cons.mp mem
    · exact Body.holds_receive (kept.imported b List.mem_cons_self id unit) (kept.told m rfl)
    · exact kept.imported x (List.mem_cons_of_mem _ old) id unit
  | abandonModule =>
    exact kept.control (fun x mem => List.mem_cons_of_mem _ mem) fun m here => by cases here
  | leaveScript | abandonScript | tell | unwound =>
    exact kept.control (fun x mem => by cases mem) fun m here => by cases here
  | _ => exact kept.control (fun _ mem => mem) fun m here => by cases here

end Transition

theorem Registry.Layered.congr {r r' : Registry} (h : r.Layered) (cells : r'.cells = r.cells) :
    r'.Layered := by
  have same : ∀ id, r'.state id = r.state id := by
    intro id
    rw [Registry.state, Registry.cell?_congr cells, Registry.state]
  refine h.extend (fun id o done => ?_) fun id m loaded => .inl ?_
  · rwa [Registry.cell?_congr cells]
  · rwa [← same]

/-- A module that was built from bindings depends on nothing. -/
theorem Registry.Layered.register {r : Registry} (h : r.Layered) (id : ModuleId)
    (module : Prebuilt) (source : String) :
    (r.register (module.instantiate id source)).1.Layered ∧
      r.Grows (r.register (module.instantiate id source)).1 := by
  cases found : r.cell? (module.instantiate id source).id with
  | some c =>
    rw [register_of_some found]
    exact ⟨h, fun _ _ done => done⟩
  | none =>
    rw [register_of_none found]
    have cells := lookup_push found (.done (.ok (module.instantiate id source)))
    have grows : r.Grows { r with
        cells := r.cells ++ [((module.instantiate id source).id,
          .done (.ok (module.instantiate id source)))] } := by
      intro x o done
      rw [cell?, cells, if_neg]
      · exact done
      · rintro rfl
        exact absurd (found.symm.trans done) (by simp)
    refine ⟨h.extend grows fun x m loaded => ?_, grows⟩
    rw [state_eq_loaded_iff, cell?, cells] at loaded
    split at loaded
    · next same =>
      cases loaded
      exact .inr ⟨same.symm, .nil⟩
    · exact .inl (state_eq_loaded_iff.mpr loaded)

/-! ### Many threads -/

namespace Crew

/-- The states of a crew that is told to load modules, to run scripts and to register modules that
were built from bindings. What the repositories hold, which bodies are held back and which break off
may be different at each step. -/
inductive Attained : Crew → Prop
  | fresh (recorder : Recorder) : Attained (.fresh recorder)
  | move {c : Crew} {r : Registry} {t : Thread} (before : Attained c) (s : Surroundings)
      (me : ThreadId) (moved : step s me c.registry (c.threads me) = some (r, t)) :
      Attained (c.put me r t)
  | load {c : Crew} {e : Ending} (before : Attained c) (me : ThreadId) (id : ModuleId)
      (free : (c.threads me).control = .ended e) : Attained (c.put me c.registry (.load id))
  | script {c : Crew} {e : Ending} {r : Registry} {p : Form.Program} (before : Attained c)
      (me : ThreadId) (name text : String) (scope : Namespace)
      (free : (c.threads me).control = .ended e)
      (compiled : c.registry.compile (.script name) name text = (r, .ok p)) :
      Attained (c.put me r (.body (.start (.script name) name scope p)))
  | reject {c : Crew} {r : Registry} {e : LoadError} (before : Attained c) (name text : String)
      (failed : c.registry.compile (.script name) name text = (r, .error e)) :
      Attained { c with registry := r }
  | register {c : Crew} (before : Attained c) (id : ModuleId) (module : Prebuilt) :
      Attained { c with registry := (c.registry.register (module.instantiate id "<host>")).1 }

/-- What is kept in all of these states. -/
structure Founded (c : Crew) : Prop where
  coherent : c.Coherent
  layered : c.registry.Layered
  supported : ∀ me, (c.threads me).Supported c.registry

namespace Founded

variable {c : Crew} {me : ThreadId} {r : Registry} {t : Thread}

theorem put (h : c.Founded) (coherent : (c.put me r t).Coherent) (layered : r.Layered)
    (grows : c.registry.Grows r) (supported : t.Supported r) : (c.put me r t).Founded := by
  refine ⟨coherent, layered, fun x => ?_⟩
  by_cases own : x = me
  · subst own
    rwa [threads_put_self, registry_put]
  · rw [threads_put_ne c own, registry_put]
    exact (h.supported x).grow grows

theorem move (h : c.Founded) {s : Surroundings}
    (moved : Transition s me c.registry (c.threads me) r t) : (c.put me r t).Founded := by
  obtain ⟨goal, valid⟩ := h.coherent.valid me
  have grows : c.registry.Grows r := fun id o done =>
    h.coherent.done_put (moved.effect valid) done
  have owned : ∀ id ∈ (c.threads me).claims, c.registry.cell? id = some (.loading me) :=
    fun id mem => (h.coherent.owned me id).mpr mem
  have layered : r.Layered := h.layered.extend grows fun id m => moved.loads (h.supported me)
  exact h.put (h.coherent.move moved) layered grows
    (moved.supported grows owned h.layered (h.supported me))

end Founded

theorem Attained.founded {c : Crew} (h : c.Attained) : c.Founded := by
  induction h with
  | fresh recorder =>
    exact ⟨.fresh recorder, .of_empty recorder, fun me => .bare fun m here => by cases here⟩
  | move before s me moved ih => exact ih.move (transition_of_step moved)
  | @load c e before me id free ih =>
    have begins : (Thread.load id).Begins (some id) := .load id
    exact ih.put (ih.coherent.load free id) ih.layered (fun _ _ done => done) (begins.supported _)
  | @script c e r p before me name text scope free compiled ih =>
    obtain ⟨cells, waits⟩ := c.registry.compile_quiet (.script name) name text
    rw [compiled] at cells waits
    have unit : (Body.start (.script name) name scope p).unit = .script name := rfl
    have begins : (Thread.body (.start (.script name) name scope p)).Begins none :=
      .script unit rfl
    refine ih.put (ih.coherent.script free scope p cells waits) (ih.layered.congr cells)
      (fun id o done => ?_) (begins.supported r)
    rwa [Registry.cell?_congr cells]
  | @reject c r e before name text failed ih =>
    obtain ⟨cells, waits⟩ := c.registry.compile_quiet (.script name) name text
    rw [failed] at cells waits
    refine ⟨ih.coherent.report cells waits, ih.layered.congr cells, fun me => ?_⟩
    refine (ih.supported me).grow fun id o done => ?_
    rwa [Registry.cell?_congr cells]
  | @register c before id module ih =>
    obtain ⟨layered, grows⟩ := ih.layered.register id module "<host>"
    exact ⟨ih.coherent.register _, layered, fun me => (ih.supported me).grow grows⟩

end Crew

/-! ### One thread, operation after operation -/

theorem Registry.Rested.layered_run {r : Registry} {s : Surroundings} {me : ThreadId} {t : Thread}
    {goal : Option ModuleId} (rested : r.Rested) (begins : t.Begins goal) (layered : r.Layered)
    (fuel : Nat) : (runSteps s me fuel r t).1.Layered := by
  let P (r : Registry) (t : Thread) : Prop := (Crew.solo r me t).Founded
  have keeps : ∀ {r r' t t'}, Transition s me r t r' t' → P r t → P r' t' := by
    intro r r' t t' moved founded
    have moved' : Transition s me (Crew.solo r me t).registry ((Crew.solo r me t).threads me)
        r' t' := by
      rwa [Crew.registry_solo, Crew.threads_solo]
    have next := founded.move moved'
    rwa [Crew.put_solo] at next
  have start : P r t := by
    refine ⟨begins.coherent rested me, layered, fun x => ?_⟩
    by_cases own : x = me
    · subst own
      rw [Crew.threads_solo]
      exact begins.supported r
    · rw [Crew.threads_solo_ne own]
      exact .bare fun m here => by cases here
  exact (runSteps_keeps (P := P) keeps fuel start).layered

namespace Loader.Idle

variable {l : Loader}

theorem layered_runScript (idle : l.Idle) (layered : l.registry.Layered) (files : FileTree)
    (name text : String) (scope : Namespace) :
    (l.runScript files name text scope).1.registry.Layered := by
  obtain ⟨cells, waits⟩ := l.registry.compile_quiet (.script name) name text
  rw [Loader.runScript]
  generalize l.registry.compile (.script name) name text = out at cells waits
  obtain ⟨r, result⟩ := out
  cases result with
  | error e => exact layered.congr cells
  | ok p =>
    have rested : r.Rested := idle.rested.congr cells waits
    have unit : (Body.start (.script name) name scope p).unit = .script name := rfl
    simp only [runMain_eq]
    exact rested.layered_run (.script unit rfl) (layered.congr cells) _

end Loader.Idle

namespace Runtime

variable {rt : Runtime}

theorem layered_eval (idle : rt.loader.Idle) (layered : rt.loader.registry.Layered)
    (files : FileTree) (top : Nat) (name text : String) :
    (rt.evalOn top fun t => t.eval rt.loader files name text).1.loader.registry.Layered := by
  unfold evalOn
  cases rt.tops[top]? with
  | none => exact layered
  | some t => exact idle.layered_runScript layered files name text t.scope

theorem layered_call (idle : rt.loader.Idle) (layered : rt.loader.registry.Layered)
    (files : FileTree) (call : Call) : (rt.call files call).1.loader.registry.Layered := by
  have load : ∀ id, (rt.loader.load files id).1.registry.Layered := by
    intro id
    rw [Loader.load, Loader.runMain_eq]
    exact idle.rested.layered_run (.load id) layered _
  cases call with
  | load id | topLevel id => exact load id
  | loadPath path =>
    simp only [Runtime.call, Loader.loadPath]
    cases ModuleId.parse path with
    | ok id => exact load id
    | error e => exact layered
  | loadWithin id ms =>
    have left : (rt.call files (.loadWithin id ms)).1.loader = (rt.loader.spawn files id).1 := rfl
    rw [left, idle.spawn_eq]
    exact idle.rested.layered_run (.load id) layered _
  | register id module => exact (layered.register id module "<host>").1
  | eval top name text => exact layered_eval idle layered files top name text
  | loadFile top path =>
    simp only [Runtime.call, TopLevel.evalFile]
    cases files.readText path with
    | ok text => exact layered_eval idle layered files top path text
    | error e =>
      unfold evalOn
      cases rt.tops[top]? <;> exact layered
  | emptyTopLevel | define | lookup | state | loadedModules => exact layered

theorem layered_run (idle : rt.loader.Idle) (layered : rt.loader.registry.Layered)
    (ops : List (FileTree × Call)) : (rt.run ops).loader.registry.Layered := by
  induction ops generalizing rt with
  | nil => exact layered
  | cons op rest ih => exact ih (serves_call idle op.1 op.2).idle (layered_call idle layered _ _)

end Runtime

/-- Whatever the repositories hold: after any operations on a runtime, and in any state of any
threads, what a loaded module depends on is loaded, once each and never in a circle. -/
theorem Registry.layers :
    (∀ chain recorder broken ops,
      ((Runtime.create chain recorder broken).run ops).loader.registry.Layered) ∧
    ∀ c : Crew, c.Attained → c.registry.Layered := by
  refine ⟨fun chain recorder broken ops => ?_, fun c attained => attained.founded.layered⟩
  exact Runtime.layered_run (Runtime.idle_create chain recorder broken) (.of_empty recorder) ops

/-- The module `/a`, which requires a registered module `/b`, is loaded. -/
theorem Registry.layers_of_two :
    let a : ModuleId := ⟨"/a", by decide⟩
    let b : ModuleId := ⟨"/b", by decide⟩
    let sources : ResourceRepository :=
      ⟨"", "", [a], [("src/a.loam", Utf8.encode "[\"require\", \"/b\"]")]⟩
    let rt := (Runtime.create [.resources sources] .off []).run
      [(⟨[], []⟩, .register b ⟨[], none⟩), (⟨[], []⟩, .load a)]
    rt.loader.registry.DependsOn a b ∧ rt.loader.registry.Layered ∧
      ((Crew.fresh .off).Attained ∧ (Crew.fresh .off).registry.Layered) := by
  intro a b sources rt
  have required : (rt.loader.registry.lookup a).map (·.dependencies) = some [b] := by
    decide +kernel
  obtain ⟨m, found, dependencies⟩ := Option.map_eq_some_iff.mp required
  have loaded : rt.loader.registry.state a = .loaded m := by
    rw [lookup] at found
    split at found
    · next here =>
      cases found
      exact state_eq_loaded_iff.mpr here
    · cases found
  have depends : rt.loader.registry.DependsOn a b := by
    refine ⟨m, loaded, ?_⟩
    rw [dependencies]
    exact List.mem_singleton_self b
  exact ⟨depends, layers.1 _ _ _ _, .fresh .off, layers.2 _ (.fresh .off)⟩

end ModuleSystem
