import ModuleSystem.Proofs.Coverage.Merge
import ModuleSystem.Proofs.Coverage.Parts
import ModuleSystem.Proofs.Loading.Scripts

/-! A session decides about a unit once, when it first hears of it. It is told of a script as a
script, and then of the forms of the script as if they were forms of a module. So a script leaves no
trace if its name is out of scope either way. -/

namespace ModuleSystem

open Coverage (Scope Session UnitHits unitOf inScope)

namespace Coverage

/-- Nothing is known of a unit, and the session would not enter it, of whatever kind. -/
structure Session.Ignores (s : Session) (name : String) : Prop where
  outside : ∀ kind, inScope s.scope name kind = false
  unknown : unitOf name s.units = none

theorem unitOf_updateUnit_of_ne {blank : UnitHits} {change : UnitHits → UnitHits} {name : String}
    (keeps : ∀ u, (change u).unit = u.unit) (other : blank.unit ≠ name) (units : List UnitHits) :
    unitOf name (updateUnit blank change units) = unitOf name units := by
  have new : (change blank).unit ≠ name := by rwa [keeps]
  induction units with
  | nil => simp [updateUnit, unitOf, new]
  | cons u rest ih =>
    rw [updateUnit]
    split
    · simp [unitOf, new]
    · split
      · next same => simp [unitOf, keeps, same, other]
      · simp only [unitOf, List.find?_cons] at ih ⊢
        rw [ih]

theorem Session.Ignores.hear {s : Session} {name : String} (h : s.Ignores name)
    (call : RecorderCall) : (s.hear call).Ignores name := by
  rw [Session.hear_parts]
  split
  · next accepted =>
    have other : call.blank.unit ≠ name := by
      rintro rfl
      rw [Session.accepts, ← call.blank_unit, h.unknown, h.outside] at accepted
      cases accepted
    refine ⟨h.outside, ?_⟩
    simp only [changed]
    rw [unitOf_updateUnit_of_ne (call.change_unit .count) other,
      unitOf_updateUnit_of_ne (call.change_unit .learn) other,
      unitOf_updateUnit_of_ne (call.change_unit .enter) other, h.unknown]
  · exact h

end Coverage

/-- A session listens, and something holds of it. -/
def Registry.ReportsTo (P : Session → Prop) (r : Registry) : Prop :=
  ∃ s, r.recorder = .session s ∧ P s

section

variable {P : Session → Prop} (keeps : ∀ s call, P s → P (Session.hear s call))

include keeps

theorem Registry.ReportsTo.record {r : Registry} (h : r.ReportsTo P) (unit : String)
    (span : Coverage.Span) : (r.record unit span).ReportsTo P := by
  obtain ⟨s, listens, holds⟩ := h
  refine ⟨_, ?_, keeps s (.record unit span) holds⟩
  rw [Registry.record, listens]
  rfl

theorem Registry.ReportsTo.reported {r : Registry} (h : r.ReportsTo P) (unit : BodyUnit)
    (source : String) (p : Form.Program) : (r.reported unit source p).ReportsTo P := by
  obtain ⟨s, listens, holds⟩ := h
  refine ⟨_, ?_, keeps s (.instrument unit.text unit.kind source p.spans) holds⟩
  simp only [Registry.reported, Registry.note, Registry.instrument, listens]
  rfl

theorem Registry.ReportsTo.compile {r : Registry} (h : r.ReportsTo P) (unit : BodyUnit)
    (source text : String) : (r.compile unit source text).1.ReportsTo P := by
  have reported := h.reported keeps unit source
  rw [Registry.compile]
  cases Form.compile unit.isModule text with
  | ok p => exact reported p
  | error e => exact h

theorem Body.Departs.reports {b : Body} {control : Control} {r r₁ : Registry}
    {result : Except LoadError Unit} (departs : b.Departs r control r₁ result)
    (h : r.ReportsTo P) : r₁.ReportsTo P := by
  cases departs with
  | raise => exact h.record keeps _ _
  | finish | refuse => exact h

theorem Transition.reports {s : Surroundings} {me : ThreadId} {r r' : Registry} {t t' : Thread}
    (moved : Transition s me r t r' t') (h : r.ReportsTo P) : r'.ReportsTo P := by
  cases moved with
  | begin => exact h.reported keeps _ _ _
  | perform => exact h.record keeps _ _
  | leaveModule _ departs => exact departs.reports keeps h
  | leaveScript _ departs => exact departs.reports keeps h
  | @settle stack id o =>
    have noted : (s.noted r id).recorder = r.recorder := by
      unfold Surroundings.noted
      split <;> rfl
    obtain ⟨session, listens, holds⟩ := h
    exact ⟨session, noted.trans listens, holds⟩
  | _ => exact h

theorem runSteps_reports {s : Surroundings} {me : ThreadId} {r : Registry} (h : r.ReportsTo P)
    (fuel : Nat) (t : Thread) : (runSteps s me fuel r t).1.ReportsTo P :=
  runSteps_keeps (P := fun r _ => r.ReportsTo P) (fun moved => moved.reports keeps) fuel h

theorem Loader.runMain_reports {l : Loader} (h : l.registry.ReportsTo P) (files : FileTree)
    (t : Thread) : (l.runMain files t).1.registry.ReportsTo P := by
  rw [Loader.runMain_eq]
  exact runSteps_reports keeps h _ t

theorem Loader.runScript_reports {l : Loader} (h : l.registry.ReportsTo P) (files : FileTree)
    (name text : String) (scope : Namespace) :
    (l.runScript files name text scope).1.registry.ReportsTo P := by
  have compiled := h.compile keeps (.script name) name text
  rw [Loader.runScript]
  generalize l.registry.compile (.script name) name text = out at compiled
  obtain ⟨r, result⟩ := out
  cases result with
  | error e => exact compiled
  | ok p => exact runMain_reports keeps (l := { l with registry := r }) compiled files _

namespace Runtime

variable {rt : Runtime}

theorem evalOn_reports (h : rt.loader.registry.ReportsTo P) (files : FileTree) (top : Nat)
    (name text : String) : (rt.evalOn top fun t => t.eval rt.loader files name text
      ).1.loader.registry.ReportsTo P := by
  unfold evalOn
  cases rt.tops[top]? with
  | none => exact h
  | some t => exact Loader.runScript_reports keeps h files name text t.scope

theorem call_reports (idle : rt.loader.Idle) (h : rt.loader.registry.ReportsTo P)
    (files : FileTree) (call : Call) : (rt.call files call).1.loader.registry.ReportsTo P := by
  cases call with
  | load id | topLevel id => exact Loader.runMain_reports keeps h files (.load id)
  | loadPath path =>
    rw [Runtime.call, Loader.loadPath]
    cases ModuleId.parse path with
    | ok id => exact Loader.runMain_reports keeps h files (.load id)
    | error e => exact h
  | loadWithin id milliseconds =>
    change (rt.loader.spawn files id).1.registry.ReportsTo P
    rw [idle.spawn_eq]
    exact runSteps_reports keeps h _ _
  | register id module =>
    have quiet : (rt.loader.register id module).1.registry.recorder =
        rt.loader.registry.recorder := by
      simp only [Loader.register, Registry.register]
      split <;> rfl
    obtain ⟨s, listens, holds⟩ := h
    exact ⟨s, quiet.trans listens, holds⟩
  | eval top name text => exact evalOn_reports keeps h files top name text
  | loadFile top path =>
    simp only [Runtime.call, TopLevel.evalFile]
    cases files.readText path with
    | ok text => exact evalOn_reports keeps h files top path text
    | error e =>
      unfold evalOn
      cases rt.tops[top]? <;> exact h
  | emptyTopLevel | define | lookup | state | loadedModules => exact h

theorem run_reports (idle : rt.loader.Idle) (h : rt.loader.registry.ReportsTo P)
    (ops : List (FileTree × Call)) : (rt.run ops).loader.registry.ReportsTo P := by
  induction ops generalizing rt with
  | nil => exact h
  | cons op rest ih =>
    exact ih (serves_call idle op.1 op.2).idle (call_reports keeps idle h op.1 op.2)

end Runtime

end

theorem Coverage.Report.merge_sum {tree : FileTree} {dir : String} {scope : Option Scope}
    {report : Coverage.Report} (loaded : Coverage.loadScope tree dir = .ok scope)
    (merged : Coverage.Report.merge tree dir = .ok report) :
    ∃ entries, Coverage.UnitsSum scope entries report.units := by
  unfold Coverage.Report.merge at merged
  by_cases there : tree.contains dir = true
  · simp only [there, Bool.not_true, Bool.false_eq_true, if_false, loaded] at merged
    cases listed : Coverage.hitFilePaths tree dir with
    | error e =>
      rw [listed] at merged
      cases merged
    | ok paths =>
      rw [listed] at merged
      cases merged
      exact ⟨_, Coverage.Report.mergeFiles_sum tree scope paths⟩
  · simp only [there, Bool.not_false, if_true] at merged
    cases merged
    exact ⟨[], Coverage.UnitsSum.nil scope⟩

/-- A unit that is out of scope either way is not in any merge. -/
theorem Coverage.Report.unit_eq_none {tree : FileTree} {dir name : String} {scope : Option Scope}
    {report : Coverage.Report} (outside : ∀ kind, inScope scope name kind = false)
    (loaded : Coverage.loadScope tree dir = .ok scope)
    (merged : Coverage.Report.merge tree dir = .ok report) : report.unit name = none := by
  obtain ⟨entries, sum⟩ := merge_sum loaded merged
  have none : Coverage.shares scope name entries = [] := by
    rw [Coverage.shares, List.filter_eq_nil_iff]
    intro u _ counts
    obtain ⟨rfl, inside⟩ := Coverage.concerns_iff.mp counts
    rw [outside] at inside
    cases inside
  rw [unit_eq_unitOf sum, ← Option.not_isSome_iff_eq_none, sum.reported, none, ne_eq, not_not]

/-- The name under which an operation runs a script, if it runs one. -/
def Call.script? : Call → Option String
  | .eval _ name _ | .loadFile _ name => some name
  | _ => none

/-- What the session of a runtime knows of a unit. -/
def Runtime.unit? (rt : Runtime) (name : String) : Option UnitHits :=
  rt.loader.registry.recorder.session?.bind fun s => unitOf name s.units

/-- The value of a statement that is a literal. -/
def literal? : Form.Statement → Option Value
  | .expr (.literal v) => some v
  | _ => none

theorem one_compiles : ∃ form v, Form.compile false "1" = .ok [form] ∧
    form.statement = .expr (.literal v) := by
  have told : (Form.compile false "1").toOption.map
      (·.map fun form => (literal? form.statement).isSome) = some [true] := by decide +kernel
  obtain ⟨p, compiled, literals⟩ := Option.map_eq_some_iff.mp told
  have one : p.length = 1 := by simpa using congrArg List.length literals
  obtain ⟨form, rfl⟩ := List.length_eq_one_iff.mp one
  have first : (literal? form.statement).isSome = true := (List.cons.inj literals).1
  refine ⟨form, ?_⟩
  unfold literal? at first
  split at first
  · next v literal => exact ⟨v, eq_ok_of_toOption compiled, literal⟩
  · cases first

/-- What a session hears of the script `1`. -/
theorem TopLevel.eval_one {l : Loader} {s : Session} {name : String}
    (listens : l.registry.recorder = .session s) (free : name ∉ l.held) (whole : name ∉ l.broken)
    (files : FileTree) (top : TopLevel) : ∃ span, (top.eval l files name "1").1.registry.recorder =
      .session ((s.hear (.instrument name .script name [span])).hear (.record name span)) := by
  obtain ⟨form, v, compiled, literal⟩ := one_compiles
  let surroundings := l.surroundings files
  let r := l.registry.reported (.script name) name [form]
  let b : Body := .start (.script name) name top.scope [form]
  let b' : Body := { b with rest := [], results := [v] }
  have enter : step surroundings mainThread r (.body b) = some (r, ⟨[b], .run⟩) := by
    rw [Thread.body, step_begin, if_neg (show b.unit.text ∉ surroundings.held from free),
      if_neg (show b.unit.text ∉ surroundings.broken from whole)]
  have performed : { b with rest := [] }.perform form = .ok b' := by
    simp only [Body.perform, literal]
    rfl
  have form_run : step surroundings mainThread r ⟨[b], .run⟩ =
      some (r.record name form.span, ⟨[b'], .run⟩) := by
    rw [step_form surroundings mainThread r [] (b := b) rfl rfl, performed]
    rfl
  have finish := step_finish surroundings mainThread (r.record name form.span) (b := b')
    ⟨rfl, rfl⟩ rfl rfl
  have rests : Rests surroundings mainThread (r, .body b)
      (r.record name form.span, ⟨[], .ended (.ran top.scope (.ok [v]))⟩) :=
    .of_step enter (.of_step form_run (.of_step finish ⟨⟨0, rfl⟩, rfl⟩))
  refine ⟨form.span, ?_⟩
  rw [eval_eq compiled rests]
  simp only [r, Registry.record, Registry.reported, Registry.note, Registry.instrument, listens]
  rfl

namespace Runtime

/-- A fresh runtime that records under a descriptor. -/
def recordingUnder (chain : Chain) (broken : List String) (dir runId : String) (scope : Scope) :
    Runtime :=
  create chain (.session ⟨dir, runId, some scope, [], false⟩) broken

theorem unit?_of_ignores {rt : Runtime} {name : String}
    (h : rt.loader.registry.ReportsTo (·.Ignores name)) : rt.unit? name = none := by
  obtain ⟨s, listens, ignores⟩ := h
  rw [unit?, listens]
  exact ignores.unknown

section

variable {scope : Scope} {name : String}

theorem run_ignores (outside : ∀ kind, scope.includes name kind = false) (chain : Chain)
    (broken : List String) (dir runId : String) (ops : List (FileTree × Call)) :
    ((recordingUnder chain broken dir runId scope).run ops).loader.registry.ReportsTo
      (·.Ignores name) :=
  run_reports (fun _ call ignores => ignores.hear call) (idle_create chain _ broken)
    ⟨_, rfl, outside, rfl⟩ ops

theorem call_ignores (outside : ∀ kind, scope.includes name kind = false) (chain : Chain)
    (broken : List String) (dir runId : String) (ops : List (FileTree × Call)) (files : FileTree)
    (call : Call) : (((recordingUnder chain broken dir runId scope).run ops).call files call
      ).1.loader.registry.ReportsTo (·.Ignores name) :=
  call_reports (fun _ call ignores => ignores.hear call) (idle_run (idle_create chain _ broken) ops)
    (run_ignores outside chain broken dir runId ops) files call

/-- The name of a script may be the path of a module in scope. Then the session is not told of the
script before it runs, and takes its forms for forms of the module. -/
theorem script_traced (outside : scope.includes name .script = false)
    (inside : scope.includes name .module = true) (files : FileTree) :
    let rt := (recordingUnder [] [] "data" "run" scope).run [(files, .emptyTopLevel)]
    rt.unit? name = none ∧ (rt.call files (.eval 0 name "1")).1.unit? name ≠ none := by
  intro rt
  refine ⟨rfl, ?_⟩
  obtain ⟨span, heard⟩ := @TopLevel.eval_one rt.loader _ name rfl List.not_mem_nil
    List.not_mem_nil files .empty
  have evaluated : (rt.call files (.eval 0 name "1")).1.loader =
      (TopLevel.empty.eval rt.loader files name "1").1 := rfl
  rw [unit?, evaluated, heard]
  simp [Recorder.session?, Session.hear, Session.instrument, Session.record, Session.update, unitOf,
    inScope, outside, inside, Coverage.updateUnit, UnitHits.hit]

/-- A script whose name contains no included text changes nothing about the unit of that name, in
any runtime and at any time, exactly if its name is not that of a module in scope either. Then
nothing is ever known of the unit, and no merge has it. -/
theorem untraced (outside : scope.includes name .script = false) :
    ((∀ chain broken dir runId ops files call, call.script? = some name →
        (((recordingUnder chain broken dir runId scope).run ops).call files call).1.unit? name =
          ((recordingUnder chain broken dir runId scope).run ops).unit? name) ↔
      scope.includes name .module = false) ∧
    (scope.includes name .module = false →
      (∀ chain broken dir runId ops,
        ((recordingUnder chain broken dir runId scope).run ops).unit? name = none) ∧
      ∀ tree dir report, Coverage.loadScope tree dir = .ok (some scope) →
        Coverage.Report.merge tree dir = .ok report → report.unit name = none) := by
  have either (other : scope.includes name .module = false) :
      ∀ kind, scope.includes name kind = false := by
    intro kind
    cases kind with
    | module => exact other
    | script => exact outside
  refine ⟨⟨fun same => ?_, fun other => ?_⟩, fun other => ⟨?_, ?_⟩⟩
  · by_contra inside
    obtain ⟨before, after⟩ := script_traced outside (by simpa using inside) (.empty [])
    have kept := same [] [] "data" "run" [(.empty [], .emptyTopLevel)] (.empty [])
      (.eval 0 name "1") rfl
    exact after (kept.trans before)
  · intro chain broken dir runId ops files call _
    rw [unit?_of_ignores (call_ignores (either other) chain broken dir runId ops files call),
      unit?_of_ignores (run_ignores (either other) chain broken dir runId ops)]
  · intro chain broken dir runId ops
    exact unit?_of_ignores (run_ignores (either other) chain broken dir runId ops)
  · intro tree dir report loaded merged
    have excluded : ∀ kind, inScope (some scope) name kind = false := either other
    exact Coverage.Report.unit_eq_none excluded loaded merged

end

/-- A descriptor with one module and everything below it, and no scripts. -/
def appScope : Scope := ⟨[⟨"/app", by decide⟩], []⟩

theorem untraced_main : appScope.includes "main" .script = false ∧
    ∀ chain broken dir runId ops,
      ((recordingUnder chain broken dir runId appScope).run ops).unit? "main" = none :=
  ⟨rfl, ((@untraced appScope "main" rfl).2 rfl).1⟩

/-- No script is in scope, and the unit of this one is known after it has run. -/
theorem app_script_traced :
    appScope.includes "/app/x" .script = false ∧
      let rt := (recordingUnder [] [] "data" "run" appScope).run [(.empty [], .emptyTopLevel)]
      rt.unit? "/app/x" = none ∧
        (rt.call (.empty []) (.eval 0 "/app/x" "1")).1.unit? "/app/x" =
          some ⟨"/app/x", .module, "", [⟨⟨1, 1⟩, 1⟩]⟩ := by
  refine ⟨rfl, rfl, ?_⟩
  decide +kernel

end Runtime
end ModuleSystem
