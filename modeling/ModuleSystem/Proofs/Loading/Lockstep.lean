import ModuleSystem.Proofs.Loading.Moments
import ModuleSystem.Proofs.Repository.Backing

/-! Two loaders that find the same take the same steps. What they come to differs in the names of
sources and of repositories, and in nothing else. -/

namespace ModuleSystem

open Form (Program)

/-- Failures of one kind for one reason, all the way down to the root cause. -/
inductive LoadError.Alike : LoadError → LoadError → Prop
  | refl (e : LoadError) : Alike e e
  | notFound (path : ModuleId) {searched searched' : String} :
      Alike (.notFound path searched) (.notFound path searched')
  | repository {e e' : RepositoryError} (same : e.Alike e') : Alike (.repository e) (.repository e')
  | dependency (unit : String) {cause cause' : LoadError} (same : Alike cause cause') :
      Alike (.dependency unit cause) (.dependency unit cause')

/-- Modules with the same content, whatever their sources are called. -/
structure ModuleInstance.Alike (m m' : ModuleInstance) : Prop where
  id : m.id = m'.id
  bindings : m.bindings = m'.bindings
  provided : m.provided = m'.provided
  dependencies : m.dependencies = m'.dependencies
  docs : m.docs = m'.docs

inductive Outcome.Alike : Outcome → Outcome → Prop
  | ok {m m' : ModuleInstance} (same : m.Alike m') : Alike (.ok m) (.ok m')
  | error {e e' : LoadError} (same : e.Alike e') : Alike (.error e) (.error e')

/-- What a script or the body of a module comes to. -/
inductive Outcome.AlikeRun {α : Type} : Except LoadError α → Except LoadError α → Prop
  | ok (a : α) : AlikeRun (.ok a) (.ok a)
  | error {e e' : LoadError} (same : e.Alike e') : AlikeRun (.error e) (.error e')

inductive Cell.Alike : Cell → Cell → Prop
  | loading (owner : ThreadId) : Alike (.loading owner) (.loading owner)
  | done {o o' : Outcome} (same : Outcome.Alike o o') : Alike (.done o) (.done o')

structure Registry.Alike (r r' : Registry) : Prop where
  cells : ∀ id, Option.Rel Cell.Alike (r.cell? id) (r'.cell? id)
  waits : r.waits = r'.waits

structure Body.Alike (b b' : Body) : Prop where
  unit : b.unit = b'.unit
  scope : b.scope = b'.scope
  pending : b.pending = b'.pending
  rest : b.rest = b'.rest
  results : b.results = b'.results

inductive Ending.Alike : Ending → Ending → Prop
  | loaded {o o' : Outcome} (same : Outcome.Alike o o') : Alike (.loaded o) (.loaded o')
  | ran (scope : Namespace) {result result' : Except LoadError (List Value)}
      (same : Outcome.AlikeRun result result') : Alike (.ran scope result) (.ran scope result')
  | broken (scope : Option Namespace) : Alike (.broken scope) (.broken scope)

inductive Control.Alike : Control → Control → Prop
  | request (id : ModuleId) : Alike (.request id) (.request id)
  | look (id : ModuleId) : Alike (.look id) (.look id)
  | park (id : ModuleId) : Alike (.park id) (.park id)
  | waiting (id : ModuleId) : Alike (.waiting id) (.waiting id)
  | build (id : ModuleId) : Alike (.build id) (.build id)
  | enter : Alike .enter .enter
  | run : Alike .run .run
  | answer {o o' : Outcome} (same : Outcome.Alike o o') : Alike (.answer o) (.answer o')
  | unwind : Alike .unwind .unwind
  | ended {e e' : Ending} (same : e.Alike e') : Alike (.ended e) (.ended e')

structure Thread.Alike (t t' : Thread) : Prop where
  stack : List.Forall₂ Body.Alike t.stack t'.stack
  control : t.control.Alike t'.control

/-- A registry and a thread that works on it. -/
abbrev Alike (p p' : Registry × Thread) : Prop := p.1.Alike p'.1 ∧ p.2.Alike p'.2

/-- What two chains of repositories find. -/
inductive Found.Alike : Except LoadError Found → Except LoadError Found → Prop
  | complete {m m' : ModuleInstance} (same : m.Alike m') :
      Alike (.ok (.complete m)) (.ok (.complete m'))
  | source {name name' : String} (text : String) :
      Alike (.ok (.source name text)) (.ok (.source name' text))
  | error {e e' : LoadError} (same : e.Alike e') : Alike (.error e) (.error e')

structure Surroundings.Alike (s s' : Surroundings) : Prop where
  find : ∀ id, Found.Alike (s.find id) (s'.find id)
  held : s.held = s'.held
  broken : s.broken = s'.broken

namespace LoadError.Alike

variable {e e' : LoadError}

theorem rootCause (h : e.Alike e') : e.rootCause.Alike e'.rootCause := by
  induction h with
  | refl e => exact .refl _
  | notFound path => exact .notFound path
  | repository same => exact .repository same
  | dependency unit _ ih => exact ih

theorem code (h : e.Alike e') : e.code = e'.code := by
  induction h with
  | refl | notFound => rfl
  | repository same => exact same.code
  | dependency unit _ ih => exact ih

theorem isCycle (h : e.Alike e') : e.isCycle = e'.isCycle := by
  induction h with
  | refl | notFound | repository => rfl
  | dependency unit _ ih => exact ih

/-- Failures that are alike stay alike for a unit that required the module. -/
theorem inUnit (h : e.Alike e') (unit : String) : (e.inUnit unit).Alike (e'.inUnit unit) := by
  rw [LoadError.inUnit, LoadError.inUnit, h.isCycle]
  split
  · exact h
  · exact .dependency unit h

end LoadError.Alike

namespace Body.Alike

variable {b b' : Body}

theorem eq_source (h : b.Alike b') : b' = { b with source := b'.source } := by
  cases b
  cases b'
  cases h
  simp_all

theorem of_source (b : Body) (source : String) : b.Alike { b with source } :=
  ⟨rfl, rfl, rfl, rfl, rfl⟩

theorem receive (h : b.Alike b') {m m' : ModuleInstance} (same : m.Alike m') :
    (b.receive m).Alike (b'.receive m') := by
  have imported : b.scope.importModule m = b'.scope.importModule m' := by
    simp only [Namespace.importModule, ModuleInstance.exports, h.scope, same.id, same.bindings,
      same.provided]
  exact ⟨h.unit, imported, congrArg (List.drop 1) h.pending, h.rest, h.results⟩

/-- No form can tell what its source is called. -/
theorem perform_source (b : Body) (source : String) (form : Form.Located) :
    ({ b with source }).perform form = (b.perform form).map fun b => { b with source } := by
  have eval : ∀ e, ({ b with source }).eval form.span e = b.eval form.span e := fun _ => rfl
  unfold Body.perform
  split
  · rfl
  · rw [eval]
    cases b.eval form.span _ <;> rfl
  · rfl
  · rfl
  · rw [eval]
    cases b.eval form.span _ <;> rfl
  · rw [eval]
    cases b.eval form.span _ <;> rfl

theorem sealed (h : b.Alike b') (id : ModuleId) : Outcome.Alike (b.sealed id) (b'.sealed id) := by
  rw [h.eq_source, Body.sealed, Body.sealed, Namespace.sealAs, Namespace.sealAs]
  cases b.scope.provided with
  | nil => exact .ok ⟨rfl, rfl, rfl, rfl, rfl⟩
  | cons name rest =>
    dsimp only
    cases (name :: rest).find? fun name => !b.scope.bindings.contains name with
    | none => exact .ok ⟨rfl, rfl, rfl, rfl, rfl⟩
    | some name => exact .error (.refl _)

end Body.Alike

namespace Registry.Alike

variable {r r' q q' : Registry}

theorem congr (h : r.Alike r') (cells : q.cells = r.cells) (waits : q.waits = r.waits)
    (cells' : q'.cells = r'.cells) (waits' : q'.waits = r'.waits) : q.Alike q' := by
  constructor
  · intro id
    rw [cell?_congr cells, cell?_congr cells']
    exact h.cells id
  · rw [waits, waits', h.waits]

/-- Neither knows a module, one thread loads it in both, or both have its outcome. -/
theorem cell (h : r.Alike r') (id : ModuleId) :
    (r.cell? id = none ∧ r'.cell? id = none) ∨
    (∃ owner, r.cell? id = some (.loading owner) ∧ r'.cell? id = some (.loading owner)) ∨
    ∃ o o', r.cell? id = some (.done o) ∧ r'.cell? id = some (.done o') ∧ Outcome.Alike o o' := by
  have cells := h.cells id
  generalize r.cell? id = cell at cells
  generalize r'.cell? id = cell' at cells
  cases cells with
  | none => exact .inl ⟨rfl, rfl⟩
  | some same =>
    cases same with
    | loading owner => exact .inr (.inl ⟨owner, rfl, rfl⟩)
    | done same => exact .inr (.inr ⟨_, _, rfl, rfl, same⟩)

/-- What has become of a module. -/
theorem state (h : r.Alike r') (id : ModuleId) :
    Option.Rel Outcome.Alike (r.state id).outcome? (r'.state id).outcome? := by
  rw [Registry.state, Registry.state]
  obtain ⟨free, free'⟩ | ⟨_, loading, loading'⟩ | ⟨_, _, done, done', same⟩ := h.cell id
  · rw [free, free']
    exact .none
  · rw [loading, loading']
    exact .none
  · rw [done, done']
    cases same with
    | ok same => exact .some (.ok same)
    | error same => exact .some (.error same)

theorem claim (h : r.Alike r') {id : ModuleId} (free : r.cell? id = none)
    (free' : r'.cell? id = none) (me : ThreadId) : (r.claim id me).Alike (r'.claim id me) := by
  refine ⟨fun x => ?_, h.waits⟩
  rw [cell?_claim free, cell?_claim free']
  split
  · exact .some (.loading me)
  · exact h.cells x

theorem publish (h : r.Alike r') (id : ModuleId) {o o' : Outcome} (same : Outcome.Alike o o') :
    (r.publish id o).Alike (r'.publish id o') := by
  refine ⟨fun x => ?_, h.waits⟩
  rw [cell?_publish, cell?_publish]
  split
  · obtain ⟨free, free'⟩ | ⟨_, loading, loading'⟩ | ⟨_, _, done, done', _⟩ := h.cell id
    · rw [free, free']
      exact .none
    · rw [loading, loading']
      exact .some (.done same)
    · rw [done, done']
      exact .some (.done same)
  · exact h.cells x

theorem wait (h : r.Alike r') (me : ThreadId) (id : ModuleId) :
    (r.wait me id).Alike (r'.wait me id) :=
  ⟨h.cells, congrArg ((me, id) :: ·) h.waits⟩

theorem wake (h : r.Alike r') (me : ThreadId) : (r.wake me).Alike (r'.wake me) := by
  refine ⟨h.cells, ?_⟩
  change r.waits.filter _ = r'.waits.filter _
  rw [h.waits]

theorem compile (h : r.Alike r') (unit : BodyUnit) (source source' text : String) :
    (r.compile unit source text).1.Alike (r'.compile unit source' text).1 :=
  h.congr (r.compile_quiet unit source text).1 (r.compile_quiet unit source text).2
    (r'.compile_quiet unit source' text).1 (r'.compile_quiet unit source' text).2

/-- Who would wait for whom is the same. -/
theorem deadlock (h : r.Alike r') (me : ThreadId) (mine : ModuleId → List ModuleId) (fuel : Nat)
    (awaited : ModuleId) (links : List ModuleId) :
    r.deadlock? me mine fuel awaited links = r'.deadlock? me mine fuel awaited links := by
  induction fuel generalizing awaited links with
  | zero => rfl
  | succ fuel ih =>
    rw [deadlock?, deadlock?]
    obtain ⟨free, free'⟩ | ⟨_, loading, loading'⟩ | ⟨_, _, done, done', _⟩ := h.cell awaited
    · rw [free, free']
    · rw [loading, loading']
      dsimp only
      split
      · rfl
      · rw [h.waits]
        split
        · exact ih ..
        · rfl
    · rw [done, done']

end Registry.Alike

/-- Compiling tells nothing of the source but its text. -/
theorem Registry.compile_congr (r r' : Registry) (unit : BodyUnit) (source source' text : String) :
    (r.compile unit source text).2 = (r'.compile unit source' text).2 := by
  unfold compile
  cases Form.compile unit.isModule text <;> rfl

/-- Chains of repositories with the same modules find the same. -/
theorem Surroundings.find_alike {s s' : Surroundings}
    (chains : List.Forall₂ (Repository.Alike s.files s'.files) s.chain s'.chain) (id : ModuleId) :
    Found.Alike (s.find id) (s'.find id) := by
  have located := Chain.resolve_alike chains id
  rw [find, find]
  generalize s.chain.resolve s.files id = answer at located
  generalize s'.chain.resolve s'.files id = answer' at located
  cases located with
  | unknown => exact .error (.notFound id)
  | error same => exact .error (.repository same)
  | @here l l' same =>
    dsimp only
    generalize l.read s.files = material at same
    generalize l'.read s'.files = material' at same
    cases same with
    | error same => exact .error (.repository same)
    | ok m =>
      cases m with
      | prebuilt module => exact .complete ⟨rfl, rfl, rfl, rfl, rfl⟩
      | text text => exact .source text

section

variable {s s' : Surroundings} {me : ThreadId} {r r' : Registry} {t t' : Thread}

theorem Thread.Alike.modulesFrom (h : t.Alike t') : t.modulesFrom = t'.modulesFrom := by
  have units : t.stack.map (·.unit.id?) = t'.stack.map (·.unit.id?) := by
    have stack := h.stack
    generalize t.stack = bodies at stack
    generalize t'.stack = bodies' at stack
    induction stack with
    | nil => rfl
    | cons first _ ih => rw [List.map_cons, List.map_cons, first.unit, ih]
  have modules : ∀ bodies : List Body, bodies.reverse.filterMap (·.unit.id?) =
      (bodies.map (·.unit.id?)).reverse.filterMap id := by
    intro bodies
    rw [← List.map_reverse, List.filterMap_map]
    rfl
  funext x
  rw [Thread.modulesFrom, Thread.modulesFrom, Thread.modules, Thread.modules, modules, modules,
    units]

theorem leave_alike (cells : r.Alike r') {b b' : Body} (same : b.Alike b') {below below' : List Body}
    (stack : List.Forall₂ Body.Alike below below') {result result' : Except LoadError Unit}
    (results : Outcome.AlikeRun result result') :
    Alike (leave r b below result) (leave r' b' below' result') := by
  rw [leave, leave, ← same.unit]
  cases b.unit with
  | module id =>
    have outcome : Outcome.Alike (result.bind fun () => b.sealed id)
        (result'.bind fun () => b'.sealed id) := by
      cases results with
      | ok => exact same.sealed id
      | error failed => exact .error failed
    exact ⟨cells.publish id outcome, stack, .answer outcome⟩
  | script name =>
    refine ⟨cells, .nil, .ended ?_⟩
    rw [← same.scope, ← same.results]
    apply Ending.Alike.ran
    cases results with
    | ok => exact .ok _
    | error failed => exact .error failed

variable {bodies bodies' : List Body}

theorem request_alike (cells : r.Alike r') (stack : List.Forall₂ Body.Alike bodies bodies')
    (id : ModuleId) :
    Option.Rel Alike (step s me r ⟨bodies, .request id⟩) (step s' me r' ⟨bodies', .request id⟩) := by
  have mine : Thread.modulesFrom ⟨bodies, .request id⟩ = Thread.modulesFrom ⟨bodies', .request id⟩ :=
    Thread.Alike.modulesFrom ⟨stack, .request id⟩
  simp only [step, mine]
  split
  · exact .some ⟨cells, stack, .answer (.error (.refl _))⟩
  · obtain ⟨free, free'⟩ | ⟨_, loading, loading'⟩ | ⟨_, _, done, done', _⟩ := cells.cell id
    · rw [free, free']
      exact .some ⟨cells.claim free free' me, stack, .build id⟩
    · rw [loading, loading']
      exact .some ⟨cells, stack, .look id⟩
    · rw [done, done']
      exact .some ⟨cells, stack, .look id⟩

theorem build_alike (around : s.Alike s') (cells : r.Alike r')
    (stack : List.Forall₂ Body.Alike bodies bodies') (id : ModuleId) :
    Option.Rel Alike (step s me r ⟨bodies, .build id⟩) (step s' me r' ⟨bodies', .build id⟩) := by
  have found := around.find id
  simp only [step]
  generalize s.find id = answer at found
  generalize s'.find id = answer' at found
  cases found with
  | complete same => exact .some ⟨cells.publish id (.ok same), stack, .answer (.ok same)⟩
  | error same => exact .some ⟨cells.publish id (.error same), stack, .answer (.error same)⟩
  | @source name name' text =>
    have compiled := cells.compile (.module id) name name' text
    have result := r.compile_congr r' (.module id) name name' text
    dsimp only
    generalize r.compile (.module id) name text = out at compiled result
    generalize r'.compile (.module id) name' text = out' at compiled result
    obtain ⟨q, answer⟩ := out
    obtain ⟨q', answer'⟩ := out'
    cases result
    cases answer with
    | error e =>
      exact .some ⟨compiled.publish id (.error (.refl e)), stack, .answer (.error (.refl e))⟩
    | ok p =>
      have begun : (Body.start (.module id) name .empty p).Alike (.start (.module id) name' .empty p) :=
        ⟨rfl, rfl, rfl, rfl, rfl⟩
      exact .some ⟨compiled, .cons begun stack, .enter⟩

theorem run_alike (cells : r.Alike r') {b b' : Body} (same : b.Alike b')
    (below : List.Forall₂ Body.Alike bodies bodies') :
    Option.Rel Alike (step s me r ⟨b :: bodies, .run⟩) (step s' me r' ⟨b' :: bodies', .run⟩) := by
  rw [same.eq_source]
  simp only [step]
  split
  · exact .some ⟨cells, .cons (.of_source b _) below, .request _⟩
  · exact .some (leave_alike cells (.of_source b _) below (.ok ()))
  · next form rest _ _ =>
    have recorded : (r.record b.unit.text form.span).Alike (r'.record b.unit.text form.span) :=
      cells.congr rfl rfl rfl rfl
    have performed := Body.Alike.perform_source { b with rest } b'.source form
    dsimp only at performed ⊢
    rw [performed]
    cases Body.perform { b with rest } form with
    | ok b => exact .some ⟨recorded, .cons (.of_source b _) below, .run⟩
    | error e => exact .some (leave_alike recorded (.of_source b _) below (.error (.refl e)))

/-- Two threads alike take the same step, or neither takes one. -/
theorem step_alike (around : s.Alike s') (cells : r.Alike r') (h : t.Alike t') :
    Option.Rel Alike (step s me r t) (step s' me r' t') := by
  obtain ⟨bodies, control⟩ := t
  obtain ⟨bodies', control'⟩ := t'
  have mine := h.modulesFrom
  obtain ⟨stack, controls⟩ := h
  dsimp only at stack controls
  cases controls with
  | request id => exact request_alike cells stack id
  | build id => exact build_alike around cells stack id
  | look id =>
    simp only [step]
    obtain ⟨free, free'⟩ | ⟨_, loading, loading'⟩ | ⟨_, _, done, done', same⟩ := cells.cell id
    · rw [free, free']
      exact .none
    · rw [loading, loading']
      exact .some ⟨cells, stack, .park id⟩
    · rw [done, done']
      exact .some ⟨cells, stack, .answer same⟩
  | park id =>
    simp only [step, mine, cells.deadlock, cells.waits]
    split
    · exact .some ⟨cells, stack, .answer (.error (.refl _))⟩
    · exact .some ⟨cells.wait me id, stack, .waiting id⟩
  | waiting id =>
    simp only [step]
    obtain ⟨free, free'⟩ | ⟨_, loading, loading'⟩ | ⟨_, _, done, done', same⟩ := cells.cell id
    · rw [free, free']
      exact .none
    · rw [loading, loading']
      exact .none
    · rw [done, done']
      exact .some ⟨cells.wake me, stack, .answer same⟩
  | enter =>
    cases stack with
    | nil => exact .none
    | cons first below =>
      simp only [step, first.unit, around.held, around.broken]
      split
      · exact .none
      · split
        · exact .some ⟨cells, .cons first below, .unwind⟩
        · exact .some ⟨cells, .cons first below, .run⟩
  | run =>
    cases stack with
    | nil => exact .none
    | cons first below => exact run_alike cells first below
  | answer same =>
    cases stack with
    | nil =>
      cases same with
      | ok same => exact .some ⟨cells, .nil, .ended (.loaded (.ok same))⟩
      | error same => exact .some ⟨cells, .nil, .ended (.loaded (.error same))⟩
    | cons first below =>
      cases same with
      | ok same => exact .some ⟨cells, .cons (first.receive same) below, .run⟩
      | error same =>
        simp only [step, first.unit]
        exact .some (leave_alike cells first below (.error (same.inUnit _)))
  | unwind =>
    cases stack with
    | nil => exact .some ⟨cells, .nil, .ended (.broken none)⟩
    | cons first below =>
      simp only [step, first.unit, first.scope]
      split
      · exact .some ⟨cells.publish _ (.error (.refl _)), below, .unwind⟩
      · exact .some ⟨cells, .nil, .ended (.broken _)⟩
  | ended same => exact .none

theorem runSteps_alike (around : s.Alike s') (n : Nat) (cells : r.Alike r') (h : t.Alike t') :
    Alike (runSteps s me n r t) (runSteps s' me n r' t') := by
  induction n generalizing r r' t t' with
  | zero => exact ⟨cells, h⟩
  | succ n ih =>
    have stepped : Option.Rel Alike (step s me r t) (step s' me r' t') := step_alike around cells h
    rw [runSteps, runSteps]
    generalize step s me r t = next at stepped
    generalize step s' me r' t' = next' at stepped
    cases stepped with
    | none => exact ⟨cells, h⟩
    | some both => exact ih both.1 both.2

end

end ModuleSystem
