import ModuleSystem.Proofs.Loading.CycleErrors
import ModuleSystem.Proofs.Loading.Pieces

namespace ModuleSystem

open Form (Program)

/-- A thread runs only forms of a program in its script, and the script fails with an execution error
only at one of them. -/
structure Thread.Blames (name : String) (program : Program) (t : Thread) : Prop where
  forms : ∀ b ∈ t.stack, ∀ script, b.unit = .script script → script = name ∧ b.rest ⊆ program
  blamed : ∀ scope unit span message,
    t.control = .ended (.ran scope (.error (.execution unit span message))) →
      unit = name ∧ ∃ form ∈ program, span = some form.span

theorem Transition.blames {s : Surroundings} {me : ThreadId} {r r' : Registry} {t t' : Thread}
    {name : String} {program : Program} (h : Transition s me r t r' t')
    (blames : t.Blames name program) : t'.Blames name program := by
  obtain ⟨forms, blamed⟩ := blames
  cases h with
  | begin ready => exact ⟨List.forall_mem_cons.mpr ⟨nofun, forms⟩, nofun⟩
  | perform noPending next done =>
    obtain ⟨unit, _, rest, _⟩ := Body.perform_spec noPending done
    obtain ⟨first, below⟩ := List.forall_mem_cons.mp forms
    refine ⟨List.forall_mem_cons.mpr ⟨fun script here => ?_, below⟩, nofun⟩
    obtain ⟨same, known⟩ := first script (unit ▸ here)
    rw [next] at known
    exact ⟨same, rest ▸ (List.cons_subset.mp known).2⟩
  | receive =>
    obtain ⟨first, below⟩ := List.forall_mem_cons.mp forms
    exact ⟨List.forall_mem_cons.mpr ⟨first, below⟩, nofun⟩
  | leaveModule | abandonModule => exact ⟨(List.forall_mem_cons.mp forms).2, nofun⟩
  | @leaveScript b below control r₁ result script unit departs =>
    refine ⟨nofun, fun scope unit' span message ended => ?_⟩
    obtain ⟨same, known⟩ := (List.forall_mem_cons.mp forms).1 script unit
    cases departs with
    | finish => cases ended
    | raise noPending next failed =>
      obtain ⟨_, rfl⟩ := Body.perform_error failed
      cases ended
      rw [next] at known
      refine ⟨?_, _, (List.cons_subset.mp known).1, rfl⟩
      change b.unit.text = name
      rw [unit, ← same]
      rfl
    | refuse =>
      injection ended with ended
      injection ended with _ ended
      injection ended with ended
      exact (LoadError.inUnit_ne_execution _ _ _ _ _ ended).elim
  | tell | abandonScript | unwound => exact ⟨nofun, nofun⟩
  | _ => exact ⟨forms, nofun⟩

/-- Whatever the caller's thread begins, it is left where it rests. -/
theorem Loader.mainRun_rests (l : Loader) (files : FileTree) {t : Thread} {goal : Option ModuleId}
    (begins : t.Begins goal) :
    Rests (l.surroundings files) mainThread (l.registry, t) (l.mainRun files t) :=
  ⟨⟨_, rfl⟩, runSteps_rests _ _ _ begins.valid begins.cheap (Nat.le_refl _)⟩

/-- What the caller's thread meets when a script begins that compiled. -/
def Loader.script (l : Loader) (name : String) (scope : Namespace) (program : Program) :
    Registry × Thread :=
  (l.registry.reported (.script name) name program,
    .body (.start (.script name) name scope program))

theorem Loader.script_begins (l : Loader) (name : String) (scope : Namespace) (program : Program) :
    (l.script name scope program).2.Begins none := .script rfl rfl

/-- A script comes to rest, though it may not have ended. -/
theorem Loader.script_rests (l : Loader) (files : FileTree) (name : String) (scope : Namespace)
    (program : Program) :
    ∃ y, Rests (l.surroundings files) mainThread (l.script name scope program) y := by
  let l' : Loader := { l with registry := (l.script name scope program).1 }
  exact ⟨_, l'.mainRun_rests files (l.script_begins name scope program)⟩

/-- A script that ran was neither held back nor broken off at its beginning. -/
theorem Rests.begun {s : Surroundings} {me : ThreadId} {r r' : Registry} {b : Body} {name : String}
    {scope : Namespace} {result : Except LoadError (List Value)} (script : b.unit = .script name)
    (rests : Rests s me (r, .body b) (r', ⟨[], .ended (.ran scope result)⟩)) :
    name ∉ s.held ∧ name ∉ s.broken := by
  have first := step_begin s me r b []
  rw [script] at first
  constructor
  · intro held
    have stuck : step s me r (.body b) = none := first.trans (if_pos held)
    cases rests.unique ⟨⟨0, rfl⟩, stuck⟩
  · intro broken
    by_cases held : name ∈ s.held
    · have stuck : step s me r (.body b) = none := first.trans (if_pos held)
      cases rests.unique ⟨⟨0, rfl⟩, stuck⟩
    · have moved : step s me r (.body b) = some (r, ⟨[b], .unwind⟩) := by
        rw [Thread.body, first, BodyUnit.text, if_neg held, if_pos broken]
      have off : step s me r ⟨[b], .unwind⟩ = some (r, ⟨[], .ended (.broken (some b.scope))⟩) := by
        simp only [step, script]
      cases rests.unique (.of_step moved (.of_step off ⟨⟨0, rfl⟩, rfl⟩))

namespace TopLevel

variable {l : Loader} {files : FileTree} {top : TopLevel} {name text : String} {program : Program}

/-- Running a text that compiles is running its program until it comes to rest. -/
theorem eval_eq (compiled : Form.compile false text = .ok program) {r : Registry} {t : Thread}
    (rests : Rests (l.surroundings files) mainThread (l.script name top.scope program) (r, t)) :
    top.eval l files name text = ({ l with registry := r }, top.settleScript t.ending?) := by
  have made : l.registry.compile (.script name) name text =
      (l.registry.reported (.script name) name program, .ok program) := by
    simp only [Registry.compile, BodyUnit.isModule, compiled]
    rfl
  have ran : ({ l with registry := (l.script name top.scope program).1 } : Loader).mainRun files
      (l.script name top.scope program).2 = (r, t) :=
    (Loader.mainRun_rests _ files (l.script_begins name top.scope program)).unique rests
  rw [Loader.script] at ran
  simp only [eval, Loader.runScript, made, Loader.runMain_eq, ran]

/-- An execution error that a script ends with is one of the script, raised by one of its forms. -/
theorem eval_blames (compiled : Form.compile false text = .ok program) {unit message : String}
    {span : Option Coverage.Span}
    (failed : (top.eval l files name text).2.2 = some (.failed (.execution unit span message))) :
    unit = name ∧ ∃ form ∈ program, span = some form.span := by
  obtain ⟨⟨r, t⟩, rests⟩ := l.script_rests files name top.scope program
  have begun : (l.script name top.scope program).2.Blames name program := by
    refine ⟨List.forall_mem_singleton.mpr fun script here => ?_, nofun⟩
    cases here
    exact ⟨rfl, List.Subset.refl _⟩
  have blames : t.Blames name program :=
    rests.keeps (P := fun _ t => t.Blames name program) (fun moved => moved.blames) begun
  rw [eval_eq compiled rests] at failed
  obtain ⟨stack, control⟩ := t
  cases control with
  | ended e =>
    cases e with
    | loaded o => cases failed
    | broken scope => cases scope <;> cases failed
    | ran scope result =>
      cases result with
      | ok vs => cases failed
      | error e =>
        cases failed
        exact blames.blamed scope unit span message rfl
  | _ => cases failed

/-- How the whole script goes whose last part goes like this, that many lines further down, after
parts with these values. -/
def ScriptResult.after (lines : Nat) (earlier : List Value) : ScriptResult → ScriptResult
  | .values vs => .values (earlier ++ vs)
  | .failed e => .failed (e.lower lines)
  | .broken => .broken

/-- Runs a text as a script, and then another one if the first has succeeded. The values of both are
told together, and a failure of the second as if its text stood below the first one. -/
def evalBoth (top : TopLevel) (l : Loader) (files : FileTree) (name first second : String) :
    Loader × TopLevel × Option ScriptResult :=
  match top.eval l files name first with
  | (l, top, some (.values vs)) =>
    let (l, top, result) := top.eval l files name second
    (l, top, result.map (.after (first.toList.count '\n' + 1) vs))
  | out => out

/-- Evaluations that come to the same. The loaders differ in what was reported, and in nothing else;
while a script waits for another thread, its top level is not settled. -/
structure SameRun (x y : Loader × TopLevel × Option ScriptResult) : Prop where
  loader : ∃ recorder journal,
    x.1 = { y.1 with registry := { y.1.registry with recorder, journal } }
  modules : ∀ id, x.1.registry.state id = y.1.registry.state id
  result : x.2.2 = y.2.2
  top : x.2.2.isSome → x.2.1 = y.2.1

theorem SameRun.of_agrees {l : Loader} {r q : Registry} (same : r.Agrees q)
    {told told' : TopLevel × Option ScriptResult} (result : told'.2 = told.2)
    (top : told'.2.isSome → told'.1 = told.1) :
    SameRun ({ l with registry := q }, told') ({ l with registry := r }, told) := by
  refine ⟨⟨q.recorder, q.journal, ?_⟩, fun id => ?_, result, top⟩
  · cases r
    cases q
    cases same
    simp_all
  · simp only [Registry.state, same.cell?]

theorem evalBoth_of_values {l' : Loader} {top' : TopLevel} {vs : List Value} {first : String}
    (ran : top.eval l files name first = (l', top', some (.values vs))) (second : String) :
    top.evalBoth l files name first second =
      ((top'.eval l' files name second).1, (top'.eval l' files name second).2.1,
        (top'.eval l' files name second).2.2.map (.after (first.toList.count '\n' + 1) vs)) := by
  rw [evalBoth, ran]

theorem evalBoth_of_stops {p : Piece} {e e' : Option Ending} (stops : p.Stops e e')
    {l' : Loader} {first : String}
    (ran : top.eval l files name first = (l', top.settleScript e)) (second : String) :
    top.evalBoth l files name first second = (l', top.settleScript e) := by
  rw [evalBoth, ran]
  cases stops <;> rfl

theorem settle_of_stops {p : Piece} {e e' : Option Ending} (stops : p.Stops e e')
    (noLines : p.lines = 0) : e' = e := by
  cases stops with
  | failed scope e => rw [noLines, LoadError.lower_zero]
  | waiting | broken => rfl

theorem settle_of_ends {p : Piece} {e e' : Option Ending} (ends : p.Ends e e')
    (top top' : TopLevel) :
    (top'.settleScript e').2 = (top.settleScript e).2.map (.after p.lines p.earlier) ∧
      ((top'.settleScript e').2.isSome → (top'.settleScript e').1 = (top.settleScript e).1) := by
  cases ends with
  | through => exact ⟨rfl, fun _ => rfl⟩
  | stops stopped =>
    cases stopped with
    | waiting => exact ⟨rfl, nofun⟩
    | failed | broken => exact ⟨rfl, fun _ => rfl⟩

/-- The whole script goes on with the forms of its last text as that text does by itself. -/
theorem goes_on {b : Body} (script : b.IsScript name) (noPending : b.pending = []) {lines : Nat}
    (next : b.rest = program.map (Form.Located.lower lines)) (free : name ∉ l.held)
    (unbroken : name ∉ l.broken) {y : Registry × Thread}
    (rests : Rests (l.surroundings files) mainThread (l.script name b.scope program) y)
    {r : Registry} (same : l.registry.Agrees r) :
    ∃ y', Rests (l.surroundings files) mainThread (r, ⟨[b], .run⟩) y' ∧ y.1.Agrees y'.1 ∧
      Piece.Ends ⟨lines, b.results, []⟩ y.2.ending? y'.2.ending? := by
  let s := l.surroundings files
  let piece : Piece := ⟨lines, b.results, []⟩
  let start : Body := .start (.script name) name b.scope program
  let own : Registry := l.registry.reported (.script name) name program
  have whole : piece.body start = b := by
    rw [script.eq, noPending, next]
    simp [piece, start, Piece.body, Body.start]
  have enter : step s mainThread own (.body start) = some (own, ⟨[start], .run⟩) := by
    rw [Thread.body, step_begin, if_neg (show start.unit.text ∉ s.held from free),
      if_neg (show start.unit.text ∉ s.broken from unbroken)]
  have both : piece.Both name (own, ⟨[start], .run⟩) (r, ⟨[b], .run⟩) := by
    rw [← whole]
    exact ⟨⟨same.cells, same.waits⟩, .running [] .run .nil ⟨rfl, rfl⟩⟩
  have valid : Thread.Valid none ⟨[start], .run⟩ :=
    (transition_of_step enter).valid (l.script_begins name b.scope program).valid
  exact both.last rfl valid (rests.after_step enter)

/-- Two texts that compile, one below the other: run at once, they do what they do one after the
other. -/
theorem eval_lines (l : Loader) (files : FileTree) (top : TopLevel) (name : String)
    {first second : String} {p q : Program} (compiled : Form.compile false first = .ok p)
    (compiled' : Form.compile false second = .ok q) :
    SameRun (top.eval l files name (first ++ "\n" ++ second))
      (top.evalBoth l files name first second) := by
  have whole := Form.compile_lines compiled compiled'
  generalize lines : first.toList.count '\n' + 1 = k at whole
  let piece : Piece := ⟨0, [], q.map (Form.Located.lower k)⟩
  let start : Body := .start (.script name) name top.scope p
  have body : piece.body start =
      .start (.script name) name top.scope (p ++ q.map (Form.Located.lower k)) := by
    simp [piece, start, Piece.body, Body.start]
  have both : piece.Both name (l.script name top.scope p)
      (l.script name top.scope (p ++ q.map (Form.Located.lower k))) := by
    refine ⟨⟨rfl, rfl⟩, ?_⟩
    rw [Loader.script, Loader.script, ← body]
    exact .running [] .enter .nil ⟨rfl, rfl⟩
  obtain ⟨⟨r, t⟩, rests⟩ := l.script_rests files name top.scope p
  have ran := eval_eq compiled rests
  have valid := (l.script_begins name top.scope p).valid
  obtain ⟨⟨r', t'⟩, rests', same, stops⟩ | ⟨r', b, n, reached, same, ended, script, noPending,
    noRest⟩ := both.rest valid rests
  · rw [eval_eq whole rests', evalBoth_of_stops stops ran, settle_of_stops stops rfl]
    exact .of_agrees same rfl fun _ => rfl
  · -- The first text is through: the second begins with the namespace that it has left.
    obtain rfl : t = _ := ended
    let l' : Loader := { l with registry := r }
    obtain ⟨free, unbroken⟩ := Rests.begun rfl rests
    obtain ⟨y, rests₂⟩ := l'.script_rests files name b.scope q
    have ran₂ := @eval_eq l' files ⟨b.scope⟩ name second q compiled' _ _ rests₂
    have next : (piece.body b).rest = q.map (Form.Located.lower k) := by
      simp [piece, Piece.body, noRest]
    obtain ⟨y', rests', same', ends⟩ := goes_on (l := l') (b := piece.body b)
      ⟨script.unit, script.source⟩ noPending next free unbroken rests₂ same
    obtain ⟨result, settled⟩ := settle_of_ends ends ⟨b.scope⟩ top
    rw [eval_eq whole (.of_runs reached rests'), evalBoth_of_values ran, ran₂, lines]
    exact .of_agrees same' result settled

/-- A text that does not compile is not run at all. -/
theorem eval_of_error {e : Form.CompileError} (failed : Form.compile false text = .error e) :
    top.eval l files name text = ({ l with registry := l.registry.note (.compiled name) }, top,
      some (.failed (.compile name e.span e.message))) := by
  simp only [eval, Loader.runScript, Registry.compile, BodyUnit.isModule, failed]
  rfl

/-- Where no other thread is busy, nothing keeps a script waiting. -/
theorem eval_isSome (idle : l.Idle) (files : FileTree) (top : TopLevel) (name text : String) :
    (top.eval l files name text).2.2.isSome := by
  cases compiled : Form.compile false text with
  | error e =>
    rw [eval_of_error compiled]
    rfl
  | ok p =>
    let l' : Loader := { l with registry := (l.script name top.scope p).1 }
    have idle' : l'.Idle := idle.withRegistry (idle.rested.congr rfl rfl)
    have begins := l.script_begins name top.scope p
    obtain ⟨_, e, ended, _⟩ := idle'.mainRun files begins
    have rests := l'.mainRun_rests files begins
    generalize l'.mainRun files (l.script name top.scope p).2 = y at ended rests
    obtain ⟨r, t⟩ := y
    cases ended
    rw [eval_eq compiled rests]
    rcases e with o | ⟨scope, vs | e⟩ | (_ | scope) <;> rfl

/-- Running a script in pieces is running it whole: the same namespace is left, every module is in the
same state, and the result is the same, with the lines of the second text counted from the beginning of
the first. A text that does not compile leaves everything as it was. -/
theorem eval_pieces (l : Loader) (files : FileTree) (top : TopLevel) (name first second : String) :
    (∀ p q, Form.compile false first = .ok p → Form.compile false second = .ok q →
      SameRun (top.eval l files name (first ++ "\n" ++ second))
        (top.evalBoth l files name first second) ∧
      (l.Idle → (top.evalBoth l files name first second).2.2.isSome) ∧
      ∀ top' l' files' unit span message,
        (eval top' l' files' name second).2.2 = some (.failed (.execution unit span message)) →
        unit = name ∧ ∃ form ∈ q, span = some form.span ∧
          ((first ++ "\n" ++ second).length < 2 ^ 32 →
            (form.span.lower (first.toList.count '\n' + 1)).line.toNat =
              form.span.line.toNat + (first.toList.count '\n' + 1))) ∧
    ∀ e, Form.compile false (first ++ "\n" ++ second) = .error e →
      (top.eval l files name (first ++ "\n" ++ second)).2 =
        (top, some (.failed (.compile name e.span e.message))) ∧
      (∀ id, (top.eval l files name (first ++ "\n" ++ second)).1.registry.state id =
        l.registry.state id) ∧
      (top.eval l files name (first ++ "\n" ++ second)).1.registry.recorder =
        l.registry.recorder := by
  constructor
  · intro p q compiled compiled'
    have same := eval_lines l files top name compiled compiled'
    refine ⟨same, fun idle => ?_, fun top' l' files' unit span message failed => ?_⟩
    · rw [← same.result]
      exact eval_isSome idle ..
    · obtain ⟨own, form, mem, place⟩ := eval_blames compiled' failed
      exact ⟨own, form, mem, place, fun short => Form.lower_exact compiled compiled' short form mem⟩
  · intro e failed
    rw [eval_of_error failed]
    exact ⟨rfl, fun _ => rfl, rfl⟩

theorem error?_script {result : Option ScriptResult} {e : LoadError} :
    (Reply.script result).error? = some e ↔ result = some (.failed e) := by
  rcases result with _ | _ | _ | _ <;> simp [Reply.error?]

/-- A script that loads a module and tells what it binds, and below it one that fails; and half a form
with the other half below it, which still do not compile. -/
theorem eval_pieces_raise :
    let files : FileTree := ⟨[([], .dir), (["src"], .dir), (["src", "a.loam"],
      .file (Utf8.encode "[\"define\", \"one\", 1] [\"provide\", \"one\"]"))], []⟩
    let l := (Runtime.create [.directory "/"] .off []).loader
    let first := "[\"require\", \"/a\"]\n[\"ref\", \"one\"]"
    let second := "[\"raise\", \"no\"]"
    (∃ p q, Form.compile false first = .ok p ∧ Form.compile false second = .ok q ∧
      SameRun (eval .empty l files "main" (first ++ "\n" ++ second))
        (evalBoth .empty l files "main" first second) ∧
      (evalBoth .empty l files "main" first second).2.2.isSome ∧
      (evalBoth .empty l files "main" first second).2.2 =
        some (.failed (.execution "main" (some ⟨3, 1⟩) "no")) ∧
      ∃ form ∈ q, some ⟨1, 1⟩ = some form.span ∧ (form.span.lower 2).line.toNat = 1 + 2) ∧
    ∃ e, Form.compile false ("[" ++ "\n" ++ "1") = .error e ∧
      (eval .empty l files "main" ("[" ++ "\n" ++ "1")).2 =
        (.empty, some (.failed (.compile "main" e.span e.message))) := by
  intro files l first second
  have idle : l.Idle := Runtime.idle_create _ _ _
  have read : (Form.compile false first).toOption.isSome := by decide +kernel
  have read' : (Form.compile false second).toOption.isSome := by decide +kernel
  have unread : (Form.compile false ("[" ++ "\n" ++ "1")).toOption.isNone := by decide +kernel
  obtain ⟨p, made⟩ := Option.isSome_iff_exists.mp read
  obtain ⟨q, made'⟩ := Option.isSome_iff_exists.mp read'
  have compiled := eq_ok_of_toOption made
  have compiled' := eq_ok_of_toOption made'
  have alone : (eval .empty l files "main" second).2.2 =
      some (.failed (.execution "main" (some ⟨1, 1⟩) "no")) :=
    error?_script.mp (by decide +kernel)
  have both : (evalBoth .empty l files "main" first second).2.2 =
      some (.failed (.execution "main" (some ⟨3, 1⟩) "no")) :=
    error?_script.mp (by decide +kernel)
  constructor
  · obtain ⟨same, ends, blames⟩ := (eval_pieces l files .empty "main" first second).1 p q compiled
      compiled'
    obtain ⟨_, form, mem, place, lines⟩ := blames .empty l files _ _ _ alone
    refine ⟨p, q, compiled, compiled', same, ends idle, both, form, mem, place, ?_⟩
    have above : first.toList.count '\n' + 1 = 2 := by decide +kernel
    rw [above, ← Option.some.inj place] at lines
    rw [← Option.some.inj place]
    exact lines (by decide +kernel)
  · cases failed : Form.compile false ("[" ++ "\n" ++ "1") with
    | ok p =>
      rw [failed] at unread
      cases unread
    | error e => exact ⟨e, rfl, ((eval_pieces l files .empty "main" "[" "1").2 e failed).1⟩

end TopLevel
end ModuleSystem
