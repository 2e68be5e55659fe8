import ModuleSystem.Loading.Step
import ModuleSystem.Proofs.Loading.Cells

/-! `step` taken apart: one constructor of `Transition` for each thing that a thread can do, with
all that has to hold for it. What all steps keep is proved over `Transition`. -/

namespace ModuleSystem

open Form (Program)

/-- What finding and compiling a module comes to, whatever the threads are doing. -/
inductive Prepared where
  | outcome (o : Outcome)
  | program (source : String) (p : Program)

def Surroundings.prepare (s : Surroundings) (id : ModuleId) : Prepared :=
  match s.find id with
  | .error e => .outcome (.error e)
  | .ok (.complete m) => .outcome (.ok m)
  | .ok (.source name text) =>
    match Form.compile true text with
    | .ok p => .program name p
    | .error e => .outcome (.error (.compile id.text e.span e.message))

theorem Surroundings.find_of_program {s : Surroundings} {id : ModuleId} {source : String}
    {p : Program} (h : s.prepare id = .program source p) :
    ∃ text, s.find id = .ok (.source source text) ∧ Form.compile true text = .ok p := by
  unfold prepare at h
  split at h
  · cases h
  · cases h
  · next name text found =>
    split at h
    · next compiled =>
      cases h
      exact ⟨text, found, compiled⟩
    · cases h

theorem Surroundings.compile_of_outcome {s : Surroundings} {id : ModuleId} {name text : String}
    {o : Outcome} (h : s.prepare id = .outcome o) (found : s.find id = .ok (.source name text)) :
    ∃ e, Form.compile true text = .error e := by
  rw [prepare, found] at h
  dsimp only at h
  split at h
  · cases h
  · next e compiled => exact ⟨e, compiled⟩

/-- What is reported of a unit once its source was compiled. -/
def Registry.reported (r : Registry) (unit : BodyUnit) (source : String) (p : Program) : Registry :=
  ((r.note (.compiled source)).instrument unit.text unit.kind source p.spans).note
    (.started unit.text)

/-- What is reported of a module that gets its outcome without running. -/
def Surroundings.noted (s : Surroundings) (r : Registry) (id : ModuleId) : Registry :=
  match s.find id with
  | .ok (.source name _) => r.note (.compiled name)
  | _ => r

/-- Nobody else notices that something is compiled. -/
theorem Registry.compile_quiet (r : Registry) (unit : BodyUnit) (source text : String) :
    (r.compile unit source text).1.cells = r.cells ∧
      (r.compile unit source text).1.waits = r.waits := by
  unfold compile
  cases Form.compile unit.isModule text <;> exact ⟨rfl, rfl⟩

theorem Surroundings.noted_quiet (s : Surroundings) (r : Registry) (id : ModuleId) :
    (s.noted r id).cells = r.cells ∧ (s.noted r id).waits = r.waits := by
  unfold noted
  split <;> exact ⟨rfl, rfl⟩

namespace Body

/-- The outcome of a module whose body ends with a result. -/
def outcome (b : Body) (id : ModuleId) (result : Except LoadError Unit) : Outcome :=
  result.bind fun () => b.sealed id

/-- Why the innermost body of a thread ends, with what is recorded and how it went. -/
inductive Departs (r : Registry) (b : Body) : Control → Registry → Except LoadError Unit → Prop
  | finish (noPending : b.pending = []) (noRest : b.rest = []) : Departs r b .run r (.ok ())
  | raise {form : Form.Located} {rest : Program} {e : LoadError} (noPending : b.pending = [])
      (next : b.rest = form :: rest) (failed : { b with rest }.perform form = .error e) :
      Departs r b .run (r.record b.unit.text form.span) (.error e)
  | refuse {e : LoadError} : Departs r b (.answer (.error e)) r (.error (e.inUnit b.unit.text))

theorem Departs.quiet {b : Body} {control : Control} {r r₁ : Registry}
    {result : Except LoadError Unit} (h : b.Departs r control r₁ result) :
    r₁.cells = r.cells ∧ r₁.waits = r.waits := by
  cases h <;> exact ⟨rfl, rfl⟩

end Body

namespace Thread

/-- The modules among the bodies of a stack, innermost first. -/
def running (stack : List Body) : List ModuleId := stack.filterMap (·.unit.id?)

theorem modules_eq (t : Thread) : t.modules = (running t.stack).reverse :=
  List.filterMap_reverse

theorem mem_modules {t : Thread} {id : ModuleId} : id ∈ t.modules ↔ id ∈ running t.stack := by
  rw [modules_eq, List.mem_reverse]

theorem modulesFrom_eq_nil_iff {t : Thread} {id : ModuleId} :
    t.modulesFrom id = [] ↔ id ∉ running t.stack := by
  rw [modulesFrom, ← mem_modules]
  induction t.modules with
  | nil => simp
  | cons x rest ih =>
    by_cases h : x = id
    · simp [h]
    · simpa [h, Ne.symm h] using ih

theorem modulesFrom_spec {t : Thread} {id : ModuleId} (mem : id ∈ running t.stack) :
    ∃ rest, t.modulesFrom id = id :: rest ∧ id :: rest <:+ (running t.stack).reverse := by
  have suffix := List.dropWhile_suffix (l := t.modules) (· ≠ id)
  rw [← modulesFrom] at suffix
  cases found : t.modulesFrom id with
  | nil => exact absurd mem (modulesFrom_eq_nil_iff.mp found)
  | cons x rest =>
    have first := List.head?_dropWhile_not (· ≠ id) t.modules
    rw [← modulesFrom, found] at first
    obtain rfl : x = id := by simpa using first
    rw [found, modules_eq] at suffix
    exact ⟨rest, rfl, suffix⟩

theorem running_nil : running [] = [] := rfl

theorem running_cons_module {b : Body} {id : ModuleId} (h : b.unit = .module id)
    (below : List Body) : running (b :: below) = id :: running below := by
  simp [running, BodyUnit.id?, h]

theorem running_cons_script {b : Body} {name : String} (h : b.unit = .script name)
    (below : List Body) : running (b :: below) = running below := by
  simp [running, BodyUnit.id?, h]

theorem running_cons_of_unit_eq {b b' : Body} (h : b'.unit = b.unit) (below : List Body) :
    running (b' :: below) = running (b :: below) := by
  simp [running, List.filterMap_cons, h]

end Thread

open Thread (running)

/-- One step of the thread `me`, from a registry and a thread to the next ones. -/
inductive Transition (s : Surroundings) (me : ThreadId) (r : Registry) :
    Thread → Registry → Thread → Prop
  | own {stack : List Body} {id : ModuleId} (mine : id ∈ running stack) :
      Transition s me r ⟨stack, .request id⟩ r
        ⟨stack, .answer (.error (.cycle (Thread.modulesFrom ⟨stack, .request id⟩ id ++ [id])))⟩
  | known {stack : List Body} {id : ModuleId} {c : Cell} (foreign : id ∉ running stack)
      (found : r.cell? id = some c) :
      Transition s me r ⟨stack, .request id⟩ r ⟨stack, .look id⟩
  | claim {stack : List Body} {id : ModuleId} (foreign : id ∉ running stack)
      (new : r.cell? id = none) :
      Transition s me r ⟨stack, .request id⟩ (r.claim id me) ⟨stack, .build id⟩
  | seen {stack : List Body} {id : ModuleId} {o : Outcome} (found : r.cell? id = some (.done o)) :
      Transition s me r ⟨stack, .look id⟩ r ⟨stack, .answer o⟩
  | busy {stack : List Body} {id : ModuleId} {owner : ThreadId}
      (found : r.cell? id = some (.loading owner)) :
      Transition s me r ⟨stack, .look id⟩ r ⟨stack, .park id⟩
  | closed {stack : List Body} {id : ModuleId} {chain : List ModuleId}
      (stuck : r.deadlock? me (Thread.modulesFrom ⟨stack, .park id⟩) (r.waits.length + 1) id [] =
        some chain) :
      Transition s me r ⟨stack, .park id⟩ r ⟨stack, .answer (.error (.cycle chain))⟩
  | wait {stack : List Body} {id : ModuleId}
      (free : r.deadlock? me (Thread.modulesFrom ⟨stack, .park id⟩) (r.waits.length + 1) id [] =
        none) :
      Transition s me r ⟨stack, .park id⟩ (r.wait me id) ⟨stack, .waiting id⟩
  | wake {stack : List Body} {id : ModuleId} {o : Outcome} (found : r.cell? id = some (.done o)) :
      Transition s me r ⟨stack, .waiting id⟩ (r.wake me) ⟨stack, .answer o⟩
  | settle {stack : List Body} {id : ModuleId} {o : Outcome} (ready : s.prepare id = .outcome o) :
      Transition s me r ⟨stack, .build id⟩ ((s.noted r id).publish id o) ⟨stack, .answer o⟩
  | begin {stack : List Body} {id : ModuleId} {source : String} {p : Program}
      (ready : s.prepare id = .program source p) :
      Transition s me r ⟨stack, .build id⟩ (r.reported (.module id) source p)
        ⟨.start (.module id) source .empty p :: stack, .enter⟩
  | snap {b : Body} {below : List Body} (free : b.unit.text ∉ s.held)
      (broken : b.unit.text ∈ s.broken) :
      Transition s me r ⟨b :: below, .enter⟩ r ⟨b :: below, .unwind⟩
  | enter {b : Body} {below : List Body} (free : b.unit.text ∉ s.held)
      (whole : b.unit.text ∉ s.broken) :
      Transition s me r ⟨b :: below, .enter⟩ r ⟨b :: below, .run⟩
  | ask {b : Body} {below : List Body} {id : ModuleId} {more : List ModuleId}
      (next : b.pending = id :: more) :
      Transition s me r ⟨b :: below, .run⟩ r ⟨b :: below, .request id⟩
  | perform {b b' : Body} {below : List Body} {form : Form.Located} {rest : Program}
      (noPending : b.pending = []) (next : b.rest = form :: rest)
      (done : { b with rest }.perform form = .ok b') :
      Transition s me r ⟨b :: below, .run⟩ (r.record b.unit.text form.span) ⟨b' :: below, .run⟩
  | leaveModule {b : Body} {below : List Body} {control : Control} {r₁ : Registry}
      {result : Except LoadError Unit} {id : ModuleId} (unit : b.unit = .module id)
      (departs : b.Departs r control r₁ result) :
      Transition s me r ⟨b :: below, control⟩ (r₁.publish id (b.outcome id result))
        ⟨below, .answer (b.outcome id result)⟩
  | leaveScript {b : Body} {below : List Body} {control : Control} {r₁ : Registry}
      {result : Except LoadError Unit} {name : String} (unit : b.unit = .script name)
      (departs : b.Departs r control r₁ result) :
      Transition s me r ⟨b :: below, control⟩ r₁
        ⟨[], .ended (.ran b.scope (result.map fun () => b.results))⟩
  | tell {o : Outcome} : Transition s me r ⟨[], .answer o⟩ r ⟨[], .ended (.loaded o)⟩
  | receive {b : Body} {below : List Body} {m : ModuleInstance} :
      Transition s me r ⟨b :: below, .answer (.ok m)⟩ r ⟨b.receive m :: below, .run⟩
  | abandonModule {b : Body} {below : List Body} {id : ModuleId} (unit : b.unit = .module id) :
      Transition s me r ⟨b :: below, .unwind⟩ (r.publish id (.error (abandoned id)))
        ⟨below, .unwind⟩
  | abandonScript {b : Body} {below : List Body} {name : String} (unit : b.unit = .script name) :
      Transition s me r ⟨b :: below, .unwind⟩ r ⟨[], .ended (.broken (some b.scope))⟩
  | unwound : Transition s me r ⟨[], .unwind⟩ r ⟨[], .ended (.broken none)⟩

namespace Transition

variable {s : Surroundings} {me : ThreadId} {r r' : Registry} {t t' : Thread}

theorem of_leave {b : Body} {below : List Body} {control : Control} {r₁ : Registry}
    {result : Except LoadError Unit} (departs : b.Departs r control r₁ result)
    (h : leave r₁ b below result = (r', t')) : Transition s me r ⟨b :: below, control⟩ r' t' := by
  cases unit : b.unit with
  | module id =>
    rw [leave, unit] at h
    cases h
    exact leaveModule unit departs
  | script name =>
    rw [leave, unit] at h
    cases h
    exact leaveScript unit departs

theorem of_build {stack : List Body} {id : ModuleId}
    (h : step s me r ⟨stack, .build id⟩ = some (r', t')) :
    Transition s me r ⟨stack, .build id⟩ r' t' := by
  simp only [step] at h
  cases found : s.find id with
  | error e =>
    have ready : s.prepare id = .outcome (.error e) := by simp [Surroundings.prepare, found]
    have moved := @settle s me r stack _ _ ready
    simp_all [Surroundings.noted]
  | ok f =>
    cases f with
    | complete m =>
      have ready : s.prepare id = .outcome (.ok m) := by simp [Surroundings.prepare, found]
      have moved := @settle s me r stack _ _ ready
      simp_all [Surroundings.noted]
    | source name text =>
      cases compiled : Form.compile true text with
      | error e =>
        have ready : s.prepare id = .outcome (.error (.compile id.text e.span e.message)) := by
          simp [Surroundings.prepare, found, compiled]
        have moved := @settle s me r stack _ _ ready
        simp_all [Surroundings.noted, Registry.compile, BodyUnit.isModule, BodyUnit.text]
      | ok p =>
        have ready : s.prepare id = .program name p := by
          simp [Surroundings.prepare, found, compiled]
        have moved := @begin s me r stack _ _ _ ready
        simp_all [Registry.reported, Registry.compile, BodyUnit.isModule, BodyUnit.text]

theorem of_request {stack : List Body} {id : ModuleId}
    (h : step s me r ⟨stack, .request id⟩ = some (r', t')) :
    Transition s me r ⟨stack, .request id⟩ r' t' := by
  simp only [step] at h
  by_cases foreign : Thread.modulesFrom ⟨stack, .request id⟩ id = []
  · have outside := Thread.modulesFrom_eq_nil_iff.mp foreign
    rw [foreign] at h
    cases found : r.cell? id with
    | none =>
      simp only [found, List.isEmpty_nil, Bool.not_true] at h
      cases h
      exact claim outside found
    | some c =>
      simp only [found, List.isEmpty_nil, Bool.not_true] at h
      cases h
      exact known outside found
  · have mine : id ∈ running stack :=
      Decidable.not_not.mp fun absent => foreign (Thread.modulesFrom_eq_nil_iff.mpr absent)
    rw [if_pos (by simpa using foreign)] at h
    cases h
    exact own mine

theorem of_run {b : Body} {below : List Body}
    (h : step s me r ⟨b :: below, .run⟩ = some (r', t')) :
    Transition s me r ⟨b :: below, .run⟩ r' t' := by
  obtain ⟨unit, source, scope, pending, rest, results⟩ := b
  cases pending with
  | cons id more =>
    cases h
    exact ask rfl
  | nil =>
    cases rest with
    | nil => exact of_leave (.finish rfl rfl) (Option.some.inj h)
    | cons form rest =>
      simp only [step] at h
      split at h
      · cases h
        exact perform rfl rfl ‹_›
      · exact of_leave (.raise rfl rfl ‹_›) (Option.some.inj h)

end Transition

/-- Whatever `step` does is a transition. -/
theorem transition_of_step {s : Surroundings} {me : ThreadId} {r r' : Registry} {t t' : Thread}
    (h : step s me r t = some (r', t')) : Transition s me r t r' t' := by
  obtain ⟨stack, control⟩ := t
  cases control with
  | request id => exact Transition.of_request h
  | build id => exact Transition.of_build h
  | look id =>
    simp only [step] at h
    split at h
    · cases h; exact .seen ‹_›
    · cases h; exact .busy ‹_›
    · cases h
  | park id =>
    simp only [step] at h
    split at h
    · cases h; exact .closed ‹_›
    · cases h; exact .wait ‹_›
  | waiting id =>
    simp only [step] at h
    split at h
    · cases h; exact .wake ‹_›
    · cases h
  | enter =>
    cases stack with
    | nil => cases h
    | cons b below =>
      simp only [step, List.contains_iff_mem] at h
      split at h
      · cases h
      · split at h
        · cases h; exact .snap ‹_› ‹_›
        · cases h; exact .enter ‹_› ‹_›
  | run =>
    cases stack with
    | nil => cases h
    | cons b below => exact Transition.of_run h
  | answer o =>
    cases stack with
    | nil => cases h; exact .tell
    | cons b below =>
      cases o with
      | ok m => cases h; exact .receive
      | error e =>
        simp only [step, Option.some.injEq] at h
        exact Transition.of_leave .refuse h
  | unwind =>
    cases stack with
    | nil => cases h; exact .unwound
    | cons b below =>
      simp only [step] at h
      split at h
      · cases h; exact .abandonModule ‹_›
      · cases h; exact .abandonScript ‹_›
  | ended e => cases h

end ModuleSystem
