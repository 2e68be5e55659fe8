import ModuleSystem.Proofs.Coverage.Pipeline
import ModuleSystem.Proofs.Form.Spans
import ModuleSystem.Proofs.Loading.Recorded

namespace ModuleSystem

open Coverage (Ordered RunId Session Span SpanHits UnitHits UnitsSum about)
open Form (Program)

namespace Coverage

/-- The counts of a module whose forms in `done` have begun, and those in `left` have not. -/
def marks (done left : Program) : List SpanHits :=
  done.map (⟨·.span, 1⟩) ++ left.map (⟨·.span, 0⟩)

section

variable {done left : Program} {id : ModuleId} {source : String}

theorem marks_spans (done left : Program) :
    (marks done left).map (·.span) = Program.spans (done ++ left) := by
  simp [marks, Program.spans, Function.comp_def]

theorem marks_hits (done left : Program) : (marks done left).map (·.hits) =
    List.replicate done.length 1 ++ List.replicate left.length 0 := by
  simp [marks, Function.comp_def]

theorem marks_ordered (increasing : (Program.spans (done ++ left)).Pairwise (· < ·)) :
    Ordered SpanHits.span (marks done left) := by
  rw [← marks_spans] at increasing
  exact List.pairwise_map.mp increasing

theorem count_begun (increasing : (Program.spans (done ++ left)).Pairwise (· < ·)) (span : Span) :
    (Program.spans done).count span ≤ 1 := by
  have once : (Program.spans (done ++ left)).Nodup := increasing.imp ne_of_irrefl
  rw [Program.spans, List.map_append] at once
  exact List.nodup_iff_count_le_one.mp (List.nodup_append.mp once).1 span

/-- Spans that increase have been hit as often as their forms have begun. -/
theorem hitsOf_marks (increasing : (Program.spans (done ++ left)).Pairwise (· < ·)) (span : Span) :
    hitsOf span (marks done left) =
      if span ∈ Program.spans (done ++ left) then
        some (saturated ((Program.spans done).count span))
      else none := by
  have ordered := marks_ordered increasing
  by_cases begun : span ∈ Program.spans done
  · have once : (Program.spans done).count span = 1 :=
      Nat.le_antisymm (count_begun increasing span) (List.count_pos_iff.mpr begun)
    obtain ⟨form, mem, rfl⟩ := List.mem_map.mp begun
    have row : row? SpanHits.span form.span (marks done left) = some ⟨form.span, 1⟩ :=
      ordered.row?_eq_some_iff.mpr
        ⟨List.mem_append_left _ (List.mem_map.mpr ⟨form, mem, rfl⟩), rfl⟩
    have known : form.span ∈ Program.spans (done ++ left) :=
      List.mem_map_of_mem (List.mem_append_left _ mem)
    rw [hitsOf_eq, row, if_pos known, once]
    rfl
  · have never : (Program.spans done).count span = 0 := List.count_eq_zero.mpr begun
    have known_iff : span ∈ Program.spans (done ++ left) ↔ span ∈ Program.spans left := by
      rw [Program.spans, List.map_append, List.mem_append]
      exact or_iff_right begun
    rw [hitsOf_eq, never]
    simp only [known_iff]
    by_cases later : span ∈ Program.spans left
    · rw [if_pos later]
      obtain ⟨form, mem, rfl⟩ := List.mem_map.mp later
      have row : row? SpanHits.span form.span (marks done left) = some ⟨form.span, 0⟩ :=
        ordered.row?_eq_some_iff.mpr
          ⟨List.mem_append_right _ (List.mem_map.mpr ⟨form, mem, rfl⟩), rfl⟩
      rw [row]
      rfl
    · have none : row? SpanHits.span span (marks done left) = none := by
        refine row?_eq_none_iff.mpr fun s mem same => ?_
        have unknown := mt known_iff.mp later
        rw [← marks_spans] at unknown
        exact unknown (List.mem_map.mpr ⟨s, mem, same⟩)
      rw [none, if_neg later]
      rfl

theorem count_moduleCalls (id : ModuleId) (source : String) (p done : Program) (span : Span) :
    (moduleCalls id source p done).count (.record id.text span) =
      (Program.spans done).count span := by
  have distinct : Function.Injective (RecorderCall.record id.text) := fun a b same => by
    cases same
    rfl
  have records : (done.map fun form => RecorderCall.record id.text form.span) =
      (Program.spans done).map (RecorderCall.record id.text) := by
    rw [Program.spans, List.map_map]
    rfl
  rw [moduleCalls, List.count_cons_of_ne (by simp), records,
    List.count_map_of_injective _ _ distinct]

theorem moduleCalls_spans {span : Span} :
    (∃ call ∈ moduleCalls id source (done ++ left) done, span ∈ call.spans) ↔
      span ∈ Program.spans (done ++ left) := by
  constructor
  · rintro ⟨call, mem, listed⟩
    obtain rfl | later := List.mem_cons.mp mem
    · exact listed
    · obtain ⟨form, begun, rfl⟩ := List.mem_map.mp later
      rw [List.mem_singleton.mp listed]
      exact List.mem_map_of_mem (List.mem_append_left _ begun)
  · intro listed
    exact ⟨_, List.mem_cons_self, listed⟩

/-- What is reported of a module is known from the calls about it. -/
theorem spans_eq_marks {calls : List RecorderCall} {units : List UnitHits} {u : UnitHits}
    (sum : UnitsSum none (tableOf calls) units)
    (fits : ∀ unit span, calls.count (.record unit span) < UInt64.size)
    (increasing : (Program.spans (done ++ left)).Pairwise (· < ·))
    (heard : about id.text calls = moduleCalls id source (done ++ left) done)
    (found : unitOf id.text units = some u) : u.spans = marks done left := by
  have known := sum.counted id.text u found
  refine known.ordered.ext_hits (marks_ordered increasing) fun span => ?_
  have listed : (∃ call ∈ calls, call.unit = id.text ∧ span ∈ call.spans) ↔
      span ∈ Program.spans (done ++ left) := by
    rw [← about_spans, heard]
    exact moduleCalls_spans
  rw [known.counts, tally_table fits, hitsOf_marks increasing, ← count_about, heard,
    count_moduleCalls]
  simp only [listed]

end
end Coverage

theorem Surroundings.prepare_of_find {s : Surroundings} {id : ModuleId} {source text : String}
    {p : Program} (found : s.find id = .ok (.source source text))
    (compiled : Form.compile true text = .ok p) : s.prepare id = .program source p := by
  simp only [prepare, found, compiled]

namespace Registry

variable {lib : Library} {s : Session} {calls : List RecorderCall} {r : Registry} {id : ModuleId}

/-- A module that was asked for has its outcome, and the calls about it fit together with that. -/
theorem Recalls.tells (h : r.Recalls lib s calls) (rested : r.Rested) (asked : r.cell? id ≠ none) :
    ∃ o, r.cell? id = some (.done o) ∧ Tells lib id (about id.text calls) o := by
  cases here : r.cell? id with
  | none => exact absurd here asked
  | some cell =>
    cases cell with
    | loading owner => exact absurd here (rested.done id owner)
    | done o => exact ⟨o, rfl, h.told id o here⟩

/-- A module was heard of if it was asked for and compiled. -/
theorem Recalls.heard_iff (h : r.Recalls lib s calls) (rested : r.Rested) :
    about id.text calls ≠ [] ↔ r.cell? id ≠ none ∧ ∃ source p, lib id = .program source p := by
  constructor
  · intro heard
    have asked : r.cell? id ≠ none := fun none => heard (h.silent id none)
    obtain ⟨o, _, tells⟩ := h.tells rested asked
    refine ⟨asked, ?_⟩
    generalize about id.text calls = calls at heard tells
    cases tells with
    | silent => exact absurd rfl heard
    | finished _ _ all | broken _ _ all =>
      obtain ⟨source, p, _, ready, _⟩ := all
      exact ⟨source, p, ready⟩
  · rintro ⟨asked, source, p, ready⟩
    obtain ⟨o, _, tells⟩ := h.tells rested asked
    obtain ⟨done, left, _, heard, _⟩ := tells.reach ready
    rw [heard]
    exact List.cons_ne_nil _ _

/-- No span is recorded twice. -/
theorem Recalls.count_le (h : r.Recalls lib s calls) (rested : r.Rested)
    (increasing : ∀ id source p, lib id = .program source p → p.spans.Pairwise (· < ·))
    (unit : String) (span : Span) : calls.count (.record unit span) ≤ 1 := by
  by_cases never : calls.count (.record unit span) = 0
  · omega
  obtain ⟨_, id, rfl⟩ := h.modules _ (List.count_pos_iff.mp (Nat.pos_of_ne_zero never))
  rw [← Coverage.count_about] at never ⊢
  have heard : about id.text calls ≠ [] := by
    intro none
    rw [none] at never
    exact never rfl
  obtain ⟨asked, source, p, ready⟩ := (h.heard_iff rested).mp heard
  obtain ⟨o, _, tells⟩ := h.tells rested asked
  obtain ⟨done, left, rfl, heard, _⟩ := tells.reach ready
  rw [heard, Coverage.count_moduleCalls]
  exact Coverage.count_begun (increasing id source _ ready) span

end Registry

/-- What a unit of a report tells of a module that was compiled from a text: its spans are the places
where the forms of the text begin, and they were hit as far as the body of the module came. -/
structure Covers (lib : Library) (state : ModuleState) (id : ModuleId) (text : String)
    (u : UnitHits) : Prop where
  kind : u.kind = .module
  places : ∃ forms, Json.stream text = .ok forms ∧
    u.spans.map (fun s => (s.span.line.toNat, s.span.column.toNat)) = Form.starts forms
  ended : (∃ m, state = .loaded m) ∨
    ∃ e, state = .failed e ∧ (SealFails lib id e ∨ ∃ k, FailsAt lib id k e)
  loaded : ∀ m, state = .loaded m → ∀ s ∈ u.spans, s.hits = 1
  unsealed : ∀ e, SealFails lib id e → ∀ s ∈ u.spans, s.hits = 1
  broken : ∀ k e, FailsAt lib id k e → k ≤ u.spans.length ∧
    u.spans.map (·.hits) = List.replicate k 1 ++ List.replicate (u.spans.length - k) 0

theorem Registry.Recalls.covers {lib : Library} {s : Session} {calls : List RecorderCall}
    {r : Registry} {id : ModuleId} {source text : String} {p : Program} {units : List UnitHits}
    {u : UnitHits} (h : r.Recalls lib s calls) (rested : r.Rested) (asked : r.cell? id ≠ none)
    (ready : lib id = .program source p) (compiled : Form.compile true text = .ok p)
    (short : text.length < 2 ^ 32) (sum : UnitsSum none (Coverage.tableOf calls) units)
    (fits : ∀ unit span, calls.count (.record unit span) < UInt64.size)
    (found : Coverage.unitOf id.text units = some u) (kind : u.kind = .module) :
    Covers lib (r.state id) id text u := by
  obtain ⟨increasing, forms, streamed, places⟩ := Form.compile_places compiled short
  obtain ⟨o, outcome, tells⟩ := h.tells rested asked
  obtain ⟨done, left, rfl, heard, complete, ended, unsealed, broken⟩ := tells.reach ready
  have spans : u.spans = Coverage.marks done left :=
    Coverage.spans_eq_marks sum fits increasing heard found
  have all : left = [] → ∀ s ∈ u.spans, s.hits = 1 := by
    rintro rfl s mem
    rw [spans] at mem
    obtain ⟨form, _, rfl⟩ : ∃ form ∈ done, (⟨form.span, 1⟩ : SpanHits) = s := by
      simpa [Coverage.marks] using mem
    rfl
  refine ⟨kind, ⟨forms, streamed, ?_⟩, ?_, fun m loaded => ?_, fun e fails => all (unsealed e fails),
    fun k e fails => ?_⟩
  · rw [spans, ← places, ← Coverage.marks_spans, List.map_map]
    rfl
  · cases o with
    | ok m => exact .inl ⟨m, Registry.state_eq_loaded_iff.mpr outcome⟩
    | error e =>
      refine .inr ⟨e, Registry.state_eq_failed_iff.mpr outcome, ?_⟩
      exact (ended e rfl).imp_right fun fails => ⟨_, fails⟩
  · rw [Registry.state_eq_loaded_iff, outcome] at loaded
    cases loaded
    exact all (complete m rfl)
  · obtain rfl := broken k e fails
    have size : u.spans.length = done.length + left.length := by simp [spans, Coverage.marks]
    rw [size, Nat.add_sub_cancel_left, spans, Coverage.marks_hits]
    exact ⟨Nat.le_add_right _ _, rfl⟩

namespace Runtime

/-- The end of a runtime. What its session has not written yet is written, if it can be. -/
def drop (rt : Runtime) : StateM FileTree Unit := do
  if let some session := rt.loader.registry.recorder.session? then session.close

/-- A module was asked for, its source was found and read, and the source compiles. -/
def Compiled (rt : Runtime) (s : Surroundings) (id : ModuleId) (text : String) : Prop :=
  rt.loader.registry.state id ≠ .unloaded ∧
    ∃ source p, s.find id = .ok (.source source text) ∧ Form.compile true text = .ok p

/-- The merge after a runtime was dropped sums up what its session was told. -/
theorem merge_dropped {files : FileTree} {dir runId : String} {place : Place} {lib : Library}
    {calls : List RecorderCall} {rt : Runtime}
    (start : Coverage.Holds files dir place fun _ => none) (name : RunId runId)
    (recalls : rt.loader.registry.Recalls lib ⟨dir, runId, none, [], false⟩ calls) :
    ∃ report, Coverage.Report.merge (rt.drop.run files).2 dir = .ok report ∧
      report.skipped = [] ∧ UnitsSum none (Coverage.tableOf calls) report.units ∧
      ((∀ unit span, calls.count (.record unit span) < UInt64.size) →
        ∀ u ∈ report.units, ∃ call ∈ calls, call.unit = u.unit ∧ call.entry.kind = u.kind) := by
  have running := Coverage.Running.hear_all dir runId calls
  have dropped : (rt.drop.run files).2 =
      ((calls.foldl Session.hear ⟨dir, runId, none, [], false⟩).close.run files).2 := by
    rw [drop, recalls.recorder]
    rfl
  have named : RunId (calls.foldl Session.hear ⟨dir, runId, none, [], false⟩).runId := by
    rwa [running.runId_eq]
  have holds := start.close named running.dir_eq running.fresh running.clean
  rw [← dropped, running.runId_eq, running.units_eq] at holds
  obtain ⟨report, merged, skipped, _, sum, origin⟩ :=
    holds.merge (List.nodup_singleton runId) fun other known => by
      by_contra different
      rw [Function.update_of_ne (by simpa using different)] at known
      exact known rfl
  simp only [List.flatMap_cons, List.flatMap_nil, Function.update_self, Coverage.kept_getD,
    List.append_nil] at sum origin
  refine ⟨report, merged, skipped, sum, fun fits u mem => ?_⟩
  obtain ⟨e, entry, unit, kind⟩ := origin u mem
  rw [Coverage.tableOf_eq fits] at entry
  obtain ⟨_, told, unit', kind'⟩ := Coverage.origin_of_addUnits entry
  obtain ⟨call, mem, rfl⟩ := List.mem_map.mp told
  exact ⟨call, mem, call.entry_unit.symm.trans (unit'.trans unit), kind'.trans kind⟩

/-- Whatever a fresh runtime loads, and whether or not it fails: what it leaves in its data directory
tells of the modules that were compiled, and of no others, where their forms begin and how far their
bodies came. -/
theorem extent (chain : Chain) (loads : List Call) {files : FileTree} {dir runId : String}
    (wf : files.WellFormed) (empty : files.list dir = .ok []) (name : RunId runId)
    (short : ∀ id source text, Surroundings.find ⟨files, chain, [], []⟩ id =
      .ok (.source source text) → text.length < 2 ^ 32)
    (only : ∀ call ∈ loads, call.IsLoad) :
    ∃ session, (Session.start dir runId).run files = (.ok session, files) ∧
      let surroundings : Surroundings := ⟨files, chain, [], []⟩
      let rt := (create chain (.session session) []).run (loads.map (files, ·))
      ∃ report, Coverage.Report.merge (rt.drop.run files).2 dir = .ok report ∧
        report.skipped = [] ∧
        (∀ u ∈ report.units, ∃ id : ModuleId, u.unit = id.text ∧ report.unit id.text = some u) ∧
        (∀ id : ModuleId, (∃ u, report.unit id.text = some u) ↔
          ∃ text, rt.Compiled surroundings id text) ∧
        ∀ id text u, rt.Compiled surroundings id text → report.unit id.text = some u →
          Covers surroundings.prepare (rt.loader.registry.state id) id text u := by
  obtain ⟨place, start⟩ := Coverage.Holds.of_empty wf empty
  refine ⟨⟨dir, runId, none, [], false⟩, start.start runId, ?_⟩
  intro surroundings rt
  have steady : Steady chain files (loads.map (files, ·)) := by
    intro op mem
    obtain ⟨call, load, rfl⟩ := List.mem_map.mp mem
    refine ⟨fun id module same => ?_, fun id => rfl⟩
    have loads := only call load
    rw [show call = .register id module from same] at loads
    exact loads
  have loading : ∀ op ∈ loads.map (files, ·), op.2.IsLoad := by
    intro op mem
    obtain ⟨call, load, rfl⟩ := List.mem_map.mp mem
    exact only call load
  obtain ⟨calls, recalls⟩ := recalls_run steady loading (truthful_create chain _ _)
    (recalls_create chain _ ⟨dir, runId, none, [], false⟩ [])
  have rested : rt.loader.registry.Rested := (idle_run (idle_create chain _ []) _).rested
  have increasing : ∀ id source p, surroundings.prepare id = .program source p →
      p.spans.Pairwise (· < ·) := by
    intro id source p ready
    obtain ⟨text, found, compiled⟩ := Surroundings.find_of_program ready
    exact (Form.compile_places compiled (short id source text found)).1
  have fits : ∀ unit span, calls.count (.record unit span) < UInt64.size := fun unit span =>
    Nat.lt_of_le_of_lt (recalls.count_le rested increasing unit span) (by decide)
  obtain ⟨report, merged, skipped, sum, origin⟩ := merge_dropped start name recalls
  have unit_eq : ∀ name, report.unit name = Coverage.unitOf name report.units :=
    Coverage.Report.unit_eq_unitOf sum
  have modules : ∀ u ∈ report.units, u.kind = .module ∧ ∃ id : ModuleId, u.unit = id.text := by
    intro u mem
    obtain ⟨call, told, unit, kind⟩ := origin fits u mem
    obtain ⟨isModule, id, named⟩ := recalls.modules call told
    exact ⟨kind.symm.trans isModule, id, unit.symm.trans named⟩
  refine ⟨report, merged, skipped, fun u mem => ?_, fun id => ?_, fun id text u compiled found => ?_⟩
  · obtain ⟨_, id, named⟩ := modules u mem
    refine ⟨id, named, ?_⟩
    rw [unit_eq]
    exact sum.mem_iff.mpr ⟨mem, named⟩
  · rw [← Option.isSome_iff_exists, unit_eq, Coverage.reported_table fits sum,
      recalls.heard_iff rested]
    constructor
    · rintro ⟨asked, source, p, ready⟩
      obtain ⟨text, found, compiled⟩ := Surroundings.find_of_program ready
      exact ⟨text, Registry.state_eq_unloaded_iff.not.mpr asked, source, p, found, compiled⟩
    · rintro ⟨text, asked, source, p, found, compiled⟩
      exact ⟨Registry.state_eq_unloaded_iff.not.mp asked, source, p,
        Surroundings.prepare_of_find found compiled⟩
  · obtain ⟨asked, source, p, source_found, compiles⟩ := compiled
    rw [unit_eq] at found
    exact recalls.covers rested (Registry.state_eq_unloaded_iff.not.mp asked)
      (Surroundings.prepare_of_find source_found compiles) compiles
      (short id source text source_found) sum fits found
      (modules u (sum.mem_iff.mp found).1).1

/-- A repository with one module, whose first form fails. -/
def failing : FileTree :=
  ⟨[(["data"], .dir), (["src"], .dir),
    (["src", "b.loam"], .file "[\"raise\", \"no\"] 3".toUTF8.toList)], []⟩

theorem failing_wellFormed : failing.WellFormed := by
  refine ⟨by decide, fun e mem => ?_⟩
  simp only [failing, List.mem_cons, List.not_mem_nil, or_false] at mem
  obtain rfl | rfl | rfl := mem <;> exact ⟨by simp, rfl⟩

/-- The text of a module that is not there as a whole. -/
def textOf? : Found → Option String
  | .source _ text => some text
  | .complete _ => none

/-- What a statement raises, if it raises a string. -/
def raised? : Form.Statement → Option String
  | .raise (.literal (.string message)) => some message
  | _ => none

theorem failing_found : ∃ source, Surroundings.find ⟨failing, [.directory "/"], [], []⟩
    ⟨"/b", by decide⟩ = .ok (.source source "[\"raise\", \"no\"] 3") := by
  have told : (Surroundings.find ⟨failing, [.directory "/"], [], []⟩ ⟨"/b", by decide⟩).toOption.bind
      textOf? = some "[\"raise\", \"no\"] 3" := by decide +kernel
  obtain ⟨found, ok, text⟩ := Option.bind_eq_some_iff.mp told
  have ok := eq_ok_of_toOption ok
  cases found with
  | complete m => cases text
  | source source text' =>
    cases text
    exact ⟨source, ok⟩

theorem failing_compiles : ∃ form other,
    Form.compile true "[\"raise\", \"no\"] 3" = .ok [form, other] ∧
      form.statement = .raise (.literal (.string "no")) := by
  have told : (Form.compile true "[\"raise\", \"no\"] 3").toOption.map
      (·.map fun form => raised? form.statement) = some [some "no", none] := by decide +kernel
  obtain ⟨p, compiled, raises⟩ := Option.map_eq_some_iff.mp told
  have two : p.length = 2 := by simpa using congrArg List.length raises
  obtain ⟨form, other, rfl⟩ := List.length_eq_two.mp two
  refine ⟨form, other, eq_ok_of_toOption compiled, ?_⟩
  have first : raised? form.statement = some "no" := (List.cons.inj raises).1
  unfold raised? at first
  split at first
  · next raised =>
    cases first
    exact raised
  · cases first

/-- The module is loaded in vain. Its first form was run, and its second one was not. -/
theorem extent_failing :
    let b : ModuleId := ⟨"/b", by decide⟩
    ∃ session, (Session.start "/data" "run").run failing = (.ok session, failing) ∧
      let rt := (create [.directory "/"] (.session session) []).run [(failing, .load b)]
      ∃ report u, Coverage.Report.merge (rt.drop.run failing).2 "/data" = .ok report ∧
        report.unit "/b" = some u ∧
        u.spans.map (fun s => (s.span.line.toNat, s.span.column.toNat)) = [(1, 1), (1, 17)] ∧
        u.spans.map (·.hits) = [1, 0] := by
  intro b
  let surroundings : Surroundings := ⟨failing, [.directory "/"], [], []⟩
  have empty : failing.list "/data" = .ok [] := by decide +kernel
  have small : surroundings.byteCount < 2 ^ 32 := by decide +kernel
  obtain ⟨place, start⟩ := Coverage.Holds.of_empty failing_wellFormed empty
  have name : RunId "run" := ⟨by decide, by decide, by decide⟩
  obtain ⟨session, started, report, merged, _, _, reported, covers⟩ :=
    extent [.directory "/"] [.load b] failing_wellFormed empty name
      (fun id source text found => (Surroundings.length_le_of_find found).trans_lt small)
      (by simp [Call.IsLoad])
  simp only [List.map_cons, List.map_nil] at merged reported covers
  obtain rfl : session = ⟨"/data", "run", none, [], false⟩ := by
    rw [start.start "run"] at started
    cases started
    rfl
  have asked : ((create [.directory "/"] (.session ⟨"/data", "run", none, [], false⟩) []).run
      [(failing, .load b)]).loader.registry.state b ≠ .unloaded := by
    have claimed : (((create [.directory "/"] (.session ⟨"/data", "run", none, [], false⟩) []).run
      [(failing, .load b)]).loader.registry.cell? b).isSome = true := by decide +kernel
    rw [Ne, Registry.state_eq_unloaded_iff]
    exact Option.isSome_iff_ne_none.mp claimed
  obtain ⟨source, found⟩ := failing_found
  obtain ⟨form, other, compiles, raises⟩ := failing_compiles
  have ready := Surroundings.prepare_of_find found compiles
  have fails : FailsAt surroundings.prepare b 1 (.execution "/b" (some form.span) "no") := by
    refine ⟨source, [form, other], _, [other], ready, .start ready, .raise rfl rfl ?_, rfl⟩
    rw [Body.perform, raises]
    rfl
  obtain ⟨u, here⟩ := (reported b).mpr ⟨_, asked, source, _, found, compiles⟩
  have told := covers b _ u ⟨asked, source, _, found, compiles⟩ here
  obtain ⟨forms, streamed, places⟩ := told.places
  have starts : Form.starts forms = [(1, 1), (1, 17)] := by
    have read : (Json.stream "[\"raise\", \"no\"] 3").toOption.map Form.starts =
        some [(1, 1), (1, 17)] := by decide +kernel
    rw [streamed] at read
    exact Option.some.inj read
  rw [starts] at places
  have two : u.spans.length = 2 := by
    rw [← List.length_map, places]
    rfl
  have hits := (told.broken 1 _ fails).2
  rw [two] at hits
  exact ⟨_, started, report, u, merged, here, places, hits⟩

end Runtime
end ModuleSystem
