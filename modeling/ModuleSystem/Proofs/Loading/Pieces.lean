import ModuleSystem.Proofs.Form.Composing
import ModuleSystem.Proofs.Loading.Failures
import ModuleSystem.Proofs.Loading.Lockstep

/-! While one piece of a script runs, the whole script takes the same steps: it has the forms of
later pieces still before it, and the values of earlier ones behind it. Only when the piece is
through does it end, and the whole goes on. -/

namespace ModuleSystem

open Form (Program)

@[simp] theorem Form.Located.lower_zero : Form.Located.lower 0 = id := by
  funext form
  simp [lower, Coverage.Span.lower]

namespace LoadError

/-- A failure of a script whose text stands further down. Only an execution error of the script
itself tells a line of that text. -/
def lower (lines : Nat) : LoadError → LoadError
  | .execution unit (some span) message => .execution unit (some (span.lower lines)) message
  | e => e

theorem lower_zero (e : LoadError) : e.lower 0 = e := by
  unfold lower
  split
  · simp [Coverage.Span.lower]
  · rfl

/-- What a failed module means for a script does not depend on where the script stands. -/
theorem lower_inUnit (lines : Nat) (e : LoadError) (unit : String) :
    (e.inUnit unit).lower lines = e.inUnit unit := by
  cases failed : e.inUnit unit with
  | execution => exact (inUnit_ne_execution _ _ _ _ _ failed).elim
  | _ => rfl

end LoadError

/-- Registries that differ in what was reported, and in nothing else. -/
structure Registry.Agrees (r q : Registry) : Prop where
  cells : q.cells = r.cells
  waits : q.waits = r.waits

namespace Registry.Agrees

variable {r r' q q' : Registry}

theorem cell? (h : r.Agrees q) (id : ModuleId) : q.cell? id = r.cell? id := cell?_congr h.cells id

theorem alike (h : r.Agrees q) : r.Alike q := by
  refine ⟨fun id => ?_, h.waits.symm⟩
  rw [h.cell?]
  cases r.cell? id with
  | none => exact .none
  | some cell =>
    cases cell with
    | loading owner => exact .some (.loading owner)
    | done o =>
      cases o with
      | ok m => exact .some (.done (.ok ⟨rfl, rfl, rfl, rfl, rfl⟩))
      | error e => exact .some (.done (.error (.refl e)))

theorem claim (h : r.Agrees q) (id : ModuleId) (me : ThreadId) :
    (r.claim id me).Agrees (q.claim id me) :=
  ⟨congrArg (· ++ [(id, Cell.loading me)]) h.cells, h.waits⟩

theorem publish (h : r.Agrees q) (id : ModuleId) (o : Outcome) :
    (r.publish id o).Agrees (q.publish id o) :=
  ⟨congrArg (setCell id (.done o)) h.cells, h.waits⟩

theorem wait (h : r.Agrees q) (me : ThreadId) (id : ModuleId) :
    (r.wait me id).Agrees (q.wait me id) :=
  ⟨h.cells, congrArg ((me, id) :: ·) h.waits⟩

theorem wake (h : r.Agrees q) (me : ThreadId) : (r.wake me).Agrees (q.wake me) :=
  ⟨h.cells, congrArg (List.filter fun wait : ThreadId × ModuleId => wait.1 ≠ me) h.waits⟩

theorem record (h : r.Agrees q) (unit unit' : String) (span span' : Coverage.Span) :
    (r.record unit span).Agrees (q.record unit' span') := ⟨h.cells, h.waits⟩

theorem compile (h : r.Agrees q) (unit : BodyUnit) (source text : String) :
    (r.compile unit source text).1.Agrees (q.compile unit source text).1 := by
  obtain ⟨cells, waits⟩ := r.compile_quiet unit source text
  obtain ⟨cells', waits'⟩ := q.compile_quiet unit source text
  exact ⟨by rw [cells, cells', h.cells], by rw [waits, waits', h.waits]⟩

end Registry.Agrees

/-- From one moment a thread runs on to another, where it has ended or cannot go on. -/
def Rests (s : Surroundings) (me : ThreadId) (x y : Registry × Thread) : Prop :=
  (∃ n, runSteps s me n x.1 x.2 = y) ∧ step s me y.1 y.2 = none

namespace Rests

variable {s : Surroundings} {me : ThreadId} {x x' y z : Registry × Thread}

theorem unique (h : Rests s me x y) (h' : Rests s me x z) : y = z := by
  obtain ⟨⟨m, rfl⟩, stuck⟩ := h
  obtain ⟨⟨n, rfl⟩, stuck'⟩ := h'
  have first := runSteps_add s me m n x.1 x.2
  have second := runSteps_add s me n m x.1 x.2
  rw [runSteps_of_stuck stuck n] at first
  rw [runSteps_of_stuck stuck' m, Nat.add_comm] at second
  exact first.symm.trans second

theorem of_runs {n : Nat} (runs : runSteps s me n x.1 x.2 = x') (h : Rests s me x' y) :
    Rests s me x y := by
  obtain ⟨⟨m, rfl⟩, stuck⟩ := h
  refine ⟨⟨n + m, ?_⟩, stuck⟩
  rw [runSteps_add, runs]

theorem of_step (moved : step s me x.1 x.2 = some x') (h : Rests s me x' y) : Rests s me x y := by
  refine of_runs (n := 1) ?_ h
  rw [runSteps, moved]
  rfl

theorem after_step (h : Rests s me x y) (moved : step s me x.1 x.2 = some x') :
    Rests s me x' y := by
  obtain ⟨⟨n, rfl⟩, stuck⟩ := h
  cases n with
  | zero => cases moved.symm.trans stuck
  | succ n =>
    refine ⟨⟨n, ?_⟩, stuck⟩
    rw [runSteps, moved]

/-- Whatever every step keeps holds where a run comes to rest. -/
theorem keeps {P : Registry → Thread → Prop} (h : Rests s me x y)
    (step : ∀ {r r' t t'}, Transition s me r t r' t' → P r t → P r' t') (start : P x.1 x.2) :
    P y.1 y.2 := by
  obtain ⟨⟨n, rfl⟩, _⟩ := h
  exact runSteps_keeps step n start

end Rests

/-- Whose body a script is. -/
structure Body.IsScript (name : String) (b : Body) : Prop where
  unit : b.unit = .script name
  source : b.source = name

theorem Body.IsScript.eq {name : String} {b : Body} (script : b.IsScript name) :
    b = ⟨.script name, name, b.scope, b.pending, b.rest, b.results⟩ := by
  cases b
  cases script
  simp_all

/-- Bodies of modules, and no script. -/
def OnlyModules (upper : List Body) : Prop := ∀ x ∈ upper, ∃ id, x.unit = .module id

theorem OnlyModules.nil : OnlyModules [] := nofun

theorem OnlyModules.cons {x : Body} {id : ModuleId} (unit : x.unit = .module id)
    {upper : List Body} (modules : OnlyModules upper) : OnlyModules (x :: upper) :=
  List.forall_mem_cons.mpr ⟨⟨id, unit⟩, modules⟩

/-! ### Steps of the innermost body -/

section

variable (s : Surroundings) (me : ThreadId) (r : Registry) {b : Body}

theorem step_begin (b : Body) (below : List Body) :
    step s me r ⟨b :: below, .enter⟩ =
      if b.unit.text ∈ s.held then none
      else some (r, ⟨b :: below, if b.unit.text ∈ s.broken then .unwind else .run⟩) := by
  simp only [step, List.contains_iff_mem]
  split
  · rfl
  · split <;> rfl

theorem step_form (below : List Body) {form : Form.Located} {rest : Program}
    (noPending : b.pending = []) (next : b.rest = form :: rest) :
    step s me r ⟨b :: below, .run⟩ =
      match { b with rest }.perform form with
      | .ok b' => some (r.record b.unit.text form.span, ⟨b' :: below, .run⟩)
      | .error e => some (leave (r.record b.unit.text form.span) b below (.error e)) := by
  obtain ⟨unit, source, scope, pending, forms, results⟩ := b
  cases noPending
  cases next
  rfl

theorem step_finish {name : String} (script : b.IsScript name) (noPending : b.pending = [])
    (noRest : b.rest = []) :
    step s me r ⟨[b], .run⟩ = some (r, ⟨[], .ended (.ran b.scope (.ok b.results))⟩) := by
  simp only [step, noPending, noRest, leave, script.unit]
  rfl

end

/-- A piece of a script: the lines above its text, what the pieces before it came to, and the forms of
those after it. -/
structure Piece where
  lines : Nat
  earlier : List Value
  later : Program

namespace Piece

variable {p : Piece} {name : String}

/-- The body of the whole script while this piece of it runs. -/
def body (p : Piece) (b : Body) : Body :=
  { b with
    rest := b.rest.map (Form.Located.lower p.lines) ++ p.later
    results := p.earlier ++ b.results }

@[simp] theorem body_unit (p : Piece) (b : Body) : (p.body b).unit = b.unit := rfl

/-- A form does the same in the whole script, and if it fails, it fails further down. -/
theorem perform (p : Piece) (b : Body) (form : Form.Located) :
    (p.body b).perform (form.lower p.lines) =
      match b.perform form with
      | .ok b' => .ok (p.body b')
      | .error e => .error (e.lower p.lines) := by
  have eval : ∀ e, (p.body b).eval (form.lower p.lines).span e =
      (b.eval form.span e).mapError (LoadError.lower p.lines) := by
    intro e
    have scope : (p.body b).scope = b.scope := rfl
    unfold Body.eval
    rw [scope]
    cases Form.eval b.scope.bindings e <;> rfl
  have same : (form.lower p.lines).statement = form.statement := rfl
  unfold Body.perform
  rw [same]
  cases form.statement with
  | require paths => rfl
  | provide names => rfl
  | doc text => rfl
  | define name e =>
    dsimp only
    rw [eval]
    cases b.eval form.span e <;> rfl
  | raise e =>
    dsimp only
    rw [eval]
    cases b.eval form.span e <;> rfl
  | expr e =>
    dsimp only
    rw [eval]
    cases b.eval form.span e with
    | error _ => rfl
    | ok v =>
      change Except.ok { p.body b with results := p.earlier ++ b.results ++ [v] } = _
      rw [List.append_assoc]
      rfl

/-- A thread that runs a piece, and one that runs the whole script. -/
inductive Beside (p : Piece) (name : String) : Thread → Thread → Prop
  /-- Modules run above the script, as the forms of the piece required them. -/
  | running (upper : List Body) {b : Body} (control : Control)
      (modules : OnlyModules upper) (script : b.IsScript name) :
      Beside p name ⟨upper ++ [b], control⟩ ⟨upper ++ [p.body b], control⟩
  | failed (scope : Namespace) (e : LoadError) :
      Beside p name ⟨[], .ended (.ran scope (.error e))⟩
        ⟨[], .ended (.ran scope (.error (e.lower p.lines)))⟩
  | broken (scope : Namespace) :
      Beside p name ⟨[], .ended (.broken (some scope))⟩ ⟨[], .ended (.broken (some scope))⟩
  /-- The piece is through, and the whole script has come to the end of it. -/
  | passed {b : Body} (script : b.IsScript name) (noPending : b.pending = [])
      (noRest : b.rest = []) :
      Beside p name ⟨[], .ended (.ran b.scope (.ok b.results))⟩ ⟨[p.body b], .run⟩

structure Both (p : Piece) (name : String) (x y : Registry × Thread) : Prop where
  registries : x.1.Agrees y.1
  threads : p.Beside name x.2 y.2

section

variable {s : Surroundings} {me : ThreadId} {r q : Registry} {upper : List Body} {b : Body}

theorem modulesFrom_body (p : Piece) (upper : List Body) (b : Body) (control : Control) :
    Thread.modulesFrom ⟨upper ++ [p.body b], control⟩ =
      Thread.modulesFrom ⟨upper ++ [b], control⟩ := by
  funext id
  simp [Thread.modulesFrom, Thread.modules, List.filterMap_cons, body]

variable (same : r.Agrees q) (script : b.IsScript name)

include same script

theorem leave_failed (e : LoadError) :
    p.Both name (leave r b [] (.error e)) (leave q (p.body b) [] (.error (e.lower p.lines))) := by
  have unit : (p.body b).unit = .script name := script.unit
  rw [leave, leave, script.unit, unit]
  exact ⟨same, .failed b.scope e⟩

/-- The script itself has something left to do. -/
theorem step_script (unfinished : ¬(b.pending = [] ∧ b.rest = [])) :
    Option.Rel (p.Both name) (step s me r ⟨[b], .run⟩) (step s me q ⟨[p.body b], .run⟩) := by
  cases pending : b.pending with
  | cons id more =>
    have pending' : (p.body b).pending = id :: more := pending
    simp only [step, pending, pending']
    exact .some ⟨same, .running [] _ .nil script⟩
  | nil =>
    cases next : b.rest with
    | nil => exact absurd ⟨pending, next⟩ unfinished
    | cons form rest =>
      have pending' : (p.body b).pending = [] := pending
      have next' : (p.body b).rest =
          form.lower p.lines :: (rest.map (Form.Located.lower p.lines) ++ p.later) := by
        simp [body, next]
      have both : Body.perform { p.body b with
          rest := rest.map (Form.Located.lower p.lines) ++ p.later } (form.lower p.lines) = _ :=
        p.perform { b with rest } form
      rw [step_form s me r [] pending next, step_form s me q [] pending' next', both]
      cases done : Body.perform { b with rest } form with
      | ok b' =>
        obtain ⟨unit, source, _⟩ := Body.perform_spec pending done
        refine .some ⟨same.record .., .running [] _ .nil ?_⟩
        exact ⟨unit.trans script.unit, source.trans script.source⟩
      | error e => exact .some (leave_failed (same.record ..) script e)

variable (modules : OnlyModules upper)

include modules

/-- A module above the script gives its outcome to the next body in both. -/
theorem leave_module {x : Body} {id : ModuleId} (unit : x.unit = .module id)
    (result : Except LoadError Unit) :
    p.Both name (leave r x (upper ++ [b]) result) (leave q x (upper ++ [p.body b]) result) := by
  rw [leave, leave, unit]
  exact ⟨same.publish id _, .running upper _ modules script⟩

/-- The module that is waited for is asked for, looked at or awaited. -/
theorem step_asking (id : ModuleId) {control : Control}
    (asking : control = .request id ∨ control = .look id ∨ control = .park id ∨
      control = .waiting id) :
    Option.Rel (p.Both name) (step s me r ⟨upper ++ [b], control⟩)
      (step s me q ⟨upper ++ [p.body b], control⟩) := by
  obtain rfl | rfl | rfl | rfl := asking
  · simp only [step, modulesFrom_body, same.cell?]
    split
    · exact .some ⟨same, .running upper _ modules script⟩
    · cases r.cell? id with
      | none => exact .some ⟨same.claim id me, .running upper _ modules script⟩
      | some cell => exact .some ⟨same, .running upper _ modules script⟩
  · simp only [step, same.cell?]
    split
    · exact .some ⟨same, .running upper _ modules script⟩
    · exact .some ⟨same, .running upper _ modules script⟩
    · exact .none
  · simp only [step, modulesFrom_body, same.waits, ← same.alike.deadlock]
    split
    · exact .some ⟨same, .running upper _ modules script⟩
    · exact .some ⟨same.wait me id, .running upper _ modules script⟩
  · simp only [step, same.cell?]
    split
    · exact .some ⟨same.wake me, .running upper _ modules script⟩
    · exact .none

theorem step_build (id : ModuleId) :
    Option.Rel (p.Both name) (step s me r ⟨upper ++ [b], .build id⟩)
      (step s me q ⟨upper ++ [p.body b], .build id⟩) := by
  simp only [step]
  cases s.find id with
  | error e => exact .some ⟨same.publish id _, .running upper _ modules script⟩
  | ok found =>
    cases found with
    | complete m => exact .some ⟨same.publish id _, .running upper _ modules script⟩
    | source source text =>
      have compiled := same.compile (.module id) source text
      have result := r.compile_congr q (.module id) source source text
      dsimp only
      generalize r.compile (.module id) source text = out at compiled result
      generalize q.compile (.module id) source text = out' at compiled result
      obtain ⟨r', answer⟩ := out
      obtain ⟨q', answer'⟩ := out'
      cases result
      cases answer with
      | error e => exact .some ⟨compiled.publish id _, .running upper _ modules script⟩
      | ok program => exact .some ⟨compiled, .running (_ :: upper) _ (modules.cons rfl) script⟩

/-- A module runs above the script. -/
theorem step_module {x : Body} {id : ModuleId} (unit : x.unit = .module id) :
    Option.Rel (p.Both name) (step s me r ⟨x :: upper ++ [b], .run⟩)
      (step s me q ⟨x :: upper ++ [p.body b], .run⟩) := by
  simp only [List.cons_append, step]
  split
  · exact .some ⟨same, .running (x :: upper) _ (modules.cons unit) script⟩
  · exact .some (leave_module same script modules unit _)
  · next form rest noPending _ =>
    cases done : Body.perform { x with rest } form with
    | error e => exact .some (leave_module (same.record ..) script modules unit _)
    | ok x' =>
      have kept : x'.unit = .module id := (Body.perform_spec noPending done).1.trans unit
      exact .some ⟨same.record .., .running (x' :: upper) _ (modules.cons kept) script⟩

theorem step_enter :
    Option.Rel (p.Both name) (step s me r ⟨upper ++ [b], .enter⟩)
      (step s me q ⟨upper ++ [p.body b], .enter⟩) := by
  cases upper with
  | nil =>
    rw [List.nil_append, List.nil_append, step_begin, step_begin, body_unit]
    split
    · exact .none
    · exact .some ⟨same, .running [] _ modules script⟩
  | cons x upper =>
    rw [List.cons_append, List.cons_append, step_begin, step_begin]
    split
    · exact .none
    · exact .some ⟨same, .running (x :: upper) _ modules script⟩

theorem step_answer (o : Outcome) :
    Option.Rel (p.Both name) (step s me r ⟨upper ++ [b], .answer o⟩)
      (step s me q ⟨upper ++ [p.body b], .answer o⟩) := by
  cases upper with
  | nil =>
    cases o with
    | ok m => exact .some ⟨same, .running [] _ modules ⟨script.unit, script.source⟩⟩
    | error e =>
      have left := leave_failed (p := p) same script (e.inUnit b.unit.text)
      rw [LoadError.lower_inUnit] at left
      exact .some left
  | cons x upper =>
    obtain ⟨⟨id, unit⟩, below⟩ := List.forall_mem_cons.mp modules
    cases o with
    | ok m =>
      have received : (x.receive m).unit = .module id := unit
      exact .some ⟨same, .running (x.receive m :: upper) _ (.cons received below) script⟩
    | error e => exact .some (leave_module same script below unit _)

theorem step_unwind :
    Option.Rel (p.Both name) (step s me r ⟨upper ++ [b], .unwind⟩)
      (step s me q ⟨upper ++ [p.body b], .unwind⟩) := by
  cases upper with
  | nil =>
    simp only [List.nil_append, step, body_unit, script.unit]
    exact .some ⟨same, .broken b.scope⟩
  | cons x upper =>
    obtain ⟨⟨id, unit⟩, below⟩ := List.forall_mem_cons.mp modules
    simp only [List.cons_append, step, unit]
    exact .some ⟨same.publish id _, .running upper _ below script⟩

/-- Unless the piece is through, both take the same step, or neither takes one. -/
theorem step_running {control : Control}
    (unfinished : ¬(upper = [] ∧ control = .run ∧ b.pending = [] ∧ b.rest = [])) :
    Option.Rel (p.Both name) (step s me r ⟨upper ++ [b], control⟩)
      (step s me q ⟨upper ++ [p.body b], control⟩) := by
  cases control with
  | request id | look id | park id | waiting id => exact step_asking same script modules id (by simp)
  | build id => exact step_build same script modules id
  | enter => exact step_enter same script modules
  | answer o => exact step_answer same script modules o
  | unwind => exact step_unwind same script modules
  | ended e => exact .none
  | run =>
    cases upper with
    | nil => exact step_script same script fun finished => unfinished ⟨rfl, rfl, finished⟩
    | cons x upper =>
      obtain ⟨⟨id, unit⟩, below⟩ := List.forall_mem_cons.mp modules
      exact step_module same script below unit

end

/-! ### Runs -/

section

variable {s : Surroundings} {me : ThreadId} {x x' y : Registry × Thread}

/-- The next step of the piece is a step of the whole as well, or the piece is through. -/
theorem Both.step (both : p.Both name x y) (moved : step s me x.1 x.2 = some x') :
    p.Both name x' y ∨ ∃ y', ModuleSystem.step s me y.1 y.2 = some y' ∧ p.Both name x' y' := by
  obtain ⟨r, t⟩ := x
  obtain ⟨q, u⟩ := y
  obtain ⟨same, threads⟩ := both
  cases threads with
  | failed | broken | passed => cases moved
  | @running upper b control modules script =>
    by_cases finished : upper = [] ∧ control = .run ∧ b.pending = [] ∧ b.rest = []
    · obtain ⟨rfl, rfl, noPending, noRest⟩ := finished
      cases moved.symm.trans (step_finish s me r script noPending noRest)
      exact .inl ⟨same, .passed script noPending noRest⟩
    · have stepped : Option.Rel (p.Both name) (ModuleSystem.step s me r ⟨upper ++ [b], control⟩)
          (ModuleSystem.step s me q ⟨upper ++ [p.body b], control⟩) :=
        step_running same script modules finished
      dsimp only at moved same ⊢
      rw [moved] at stepped
      generalize ModuleSystem.step s me q _ = next at stepped
      cases stepped with
      | some both => exact .inr ⟨_, rfl, both⟩

theorem Both.run (both : p.Both name x y) (s : Surroundings) (me : ThreadId) (n : Nat) :
    ∃ k, p.Both name (runSteps s me n x.1 x.2) (runSteps s me k y.1 y.2) := by
  -- The whole takes as many steps as the piece, but for the one that ends the piece.
  induction n generalizing x y with
  | zero => exact ⟨0, both⟩
  | succ n ih =>
    rw [runSteps]
    cases moved : ModuleSystem.step s me x.1 x.2 with
    | none => exact ⟨0, both⟩
    | some x' =>
      obtain through | ⟨y', moved', both'⟩ := both.step moved
      · exact ih through
      · obtain ⟨k, ran⟩ := ih both'
        refine ⟨k + 1, ?_⟩
        rw [runSteps, moved']
        exact ran

/-- How the whole script stands where a piece of it did not come through. -/
inductive Stops (p : Piece) : Option Ending → Option Ending → Prop
  | waiting : Stops p none none
  | failed (scope : Namespace) (e : LoadError) :
      Stops p (some (.ran scope (.error e))) (some (.ran scope (.error (e.lower p.lines))))
  | broken (scope : Namespace) : Stops p (some (.broken (some scope))) (some (.broken (some scope)))

/-- A piece comes to rest: the whole script rests as well, or it has come to the end of the piece. -/
theorem Both.rest (both : p.Both name x y) (valid : x.2.Valid none) (rests : Rests s me x x') :
    (∃ y', Rests s me y y' ∧ x'.1.Agrees y'.1 ∧ p.Stops x'.2.ending? y'.2.ending?) ∨
    ∃ (q : Registry) (b : Body) (k : Nat), runSteps s me k y.1 y.2 = (q, ⟨[p.body b], .run⟩) ∧
      x'.1.Agrees q ∧ x'.2 = ⟨[], .ended (.ran b.scope (.ok b.results))⟩ ∧ b.IsScript name ∧
      b.pending = [] ∧ b.rest = [] := by
  have valid : x'.2.Valid none :=
    rests.keeps (P := fun _ t => t.Valid none) (fun moved valid => moved.valid valid) valid
  obtain ⟨⟨n, rfl⟩, stuck⟩ := rests
  obtain ⟨k, ran⟩ := both.run s me n
  generalize runSteps s me n x.1 x.2 = x' at valid stuck ran
  generalize reached : runSteps s me k y.1 y.2 = y' at ran
  obtain ⟨r, t⟩ := x'
  obtain ⟨q, u⟩ := y'
  obtain ⟨same, threads⟩ := ran
  cases threads with
  | failed scope e => exact .inl ⟨_, ⟨⟨k, reached⟩, rfl⟩, same, .failed scope e⟩
  | broken scope => exact .inl ⟨_, ⟨⟨k, reached⟩, rfl⟩, same, .broken scope⟩
  | passed script noPending noRest =>
    exact .inr ⟨q, _, k, reached, same, rfl, script, noPending, noRest⟩
  | @running upper b control modules script =>
    have unfinished : ¬(upper = [] ∧ control = .run ∧ b.pending = [] ∧ b.rest = []) := by
      rintro ⟨rfl, rfl, noPending, noRest⟩
      cases stuck.symm.trans (step_finish s me r script noPending noRest)
    have stepped : Option.Rel (p.Both name) (ModuleSystem.step s me r ⟨upper ++ [b], control⟩)
        (ModuleSystem.step s me q ⟨upper ++ [p.body b], control⟩) :=
      step_running same script modules unfinished
    dsimp only at stuck same
    rw [stuck] at stepped
    have stuck' : ModuleSystem.step s me q ⟨upper ++ [p.body b], control⟩ = none := by
      generalize ModuleSystem.step s me q _ = next at stepped
      cases stepped
      rfl
    refine .inl ⟨_, ⟨⟨k, reached⟩, stuck'⟩, same, ?_⟩
    -- A thread that has ended has no bodies left, so this one is still waiting.
    cases control with
    | ended e => exact absurd valid.control.1 (by simp)
    | _ => exact .waiting

/-- How the whole script ends where its last piece ends. -/
inductive Ends (p : Piece) : Option Ending → Option Ending → Prop
  | stops {e e' : Option Ending} (stopped : p.Stops e e') : Ends p e e'
  | through (scope : Namespace) (vs : List Value) :
      Ends p (some (.ran scope (.ok vs))) (some (.ran scope (.ok (p.earlier ++ vs))))

/-- The last piece comes to rest, and so does the whole script. -/
theorem Both.last (noLater : p.later = []) (both : p.Both name x y) (valid : x.2.Valid none)
    (rests : Rests s me x x') :
    ∃ y', Rests s me y y' ∧ x'.1.Agrees y'.1 ∧ p.Ends x'.2.ending? y'.2.ending? := by
  obtain ⟨y', rests', same, stopped⟩ | ⟨q, b, k, reached, same, ended, script, noPending, noRest⟩ :=
    both.rest valid rests
  · exact ⟨y', rests', same, .stops stopped⟩
  · have script' : (p.body b).IsScript name := ⟨script.unit, script.source⟩
    have noRest' : (p.body b).rest = [] := by simp [body, noRest, noLater]
    have finish := step_finish s me q script' noPending noRest'
    refine ⟨_, .of_runs reached (.of_step finish ⟨⟨0, rfl⟩, rfl⟩), same, ?_⟩
    rw [ended]
    exact .through b.scope b.results

end

end Piece
end ModuleSystem
