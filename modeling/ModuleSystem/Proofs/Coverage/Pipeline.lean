import ModuleSystem.Proofs.Coverage.Counting
import ModuleSystem.Proofs.Coverage.Directory

namespace ModuleSystem.Coverage

/-- What is done with a session. -/
inductive SessionAct where
  | start
  /-- Instruments a unit, or records a hit. -/
  | hear (call : RecorderCall)
  | flush
  | close
  deriving DecidableEq

/-- What was done with sessions, in order. Each is named by its run id. -/
abbrev History := List (String × SessionAct)

/-- Sessions at work: the files, the sessions that are open, and why something failed. -/
structure Recording where
  tree : FileTree
  sessions : String → Option Session
  faults : List CoverageError

namespace Recording

def set (r : Recording) (runId : String) (s : Option Session) (tree : FileTree) : Recording :=
  { r with sessions := Function.update r.sessions runId s, tree }

def blame (r : Recording) {α : Type} : Except CoverageError α → Recording
  | .ok _ => r
  | .error e => { r with faults := r.faults ++ [e] }

/-- Does something with a session of the directory. -/
def perform (dir : String) (r : Recording) (runId : String) : SessionAct → Recording
  | .start =>
    match (Session.start dir runId).run r.tree with
    | (.ok s, tree) => r.set runId (some s) tree
    | (.error e, tree) => { r with faults := r.faults ++ [e], tree }
  | .hear call => r.set runId ((r.sessions runId).map (·.hear call)) r.tree
  | .flush =>
    match r.sessions runId with
    | some s =>
      let ((s, outcome), tree) := s.flush.run r.tree
      (r.set runId (some s) tree).blame outcome
    | none => r
  | .close =>
    match r.sessions runId with
    | some s => r.set runId none (s.close.run r.tree).2
    | none => r

/-- What a history leaves behind that began with no session open. -/
def after (dir : String) (tree : FileTree) (history : History) : Recording :=
  history.foldl (fun r e => r.perform dir e.1 e.2) ⟨tree, fun _ => none, []⟩

end Recording

/-- What was done with one session. -/
def actsOf (runId : String) (history : History) : List SessionAct :=
  (history.filter (·.1 = runId)).map (·.2)

/-- The calls among some acts. -/
def heardIn (acts : List SessionAct) : List RecorderCall :=
  acts.filterMap fun
    | .hear call => some call
    | _ => none

def callsOf (runId : String) (history : History) : List RecorderCall :=
  heardIn (actsOf runId history)

def runsOf (history : History) : List String := (history.map (·.1)).dedup

/-- The runs that a session recorded anything in. -/
def trackingRuns (history : History) : List String :=
  (runsOf history).filter fun runId => callsOf runId history ≠ []

/-- A session that was started and neither closed nor started again. -/
def Opened (acts : List SessionAct) : Prop :=
  ∃ since, acts = .start :: since ∧ ∀ act ∈ since, act ≠ .start ∧ act ≠ .close

/-- All that is done with a session: it is started, then used, and in the end flushed or closed. -/
def Life (acts : List SessionAct) : Prop :=
  ∃ before last, acts = before ++ [last] ∧ Opened before ∧ (last = .flush ∨ last = .close)

/-- What may have been done with a session so far. -/
def Lawful (acts : List SessionAct) : Prop := acts = [] ∨ ∃ rest, Life (acts ++ rest)

/-- A history in which each session lives its whole life. -/
structure Lived (history : History) : Prop where
  ids : ∀ e ∈ history, RunId e.1
  lives : ∀ e ∈ history, Life (actsOf e.1 history)

/-- What comes next after what was lawful. -/
theorem Lawful.last {acts : List SessionAct} {act : SessionAct} (h : Lawful (acts ++ [act])) :
    (acts = [] ∧ act = .start) ∨ (Opened acts ∧ act ≠ .start) := by
  obtain none | ⟨rest, before, last, whole, ⟨since, rfl, middle⟩, ending⟩ := h
  · simp at none
  cases acts with
  | nil =>
    left
    exact ⟨rfl, by simpa using congrArg List.head? whole⟩
  | cons first acts =>
    right
    simp only [List.append_assoc, List.cons_append, List.nil_append, List.cons.injEq] at whole
    obtain ⟨rfl, whole⟩ := whole
    have inner : (∀ a ∈ acts, a ∈ since) ∧ (act ∈ since ∨ act = last) := by
      obtain ⟨more, rfl, tail⟩ | ⟨more, rfl, tail⟩ := List.append_eq_append_iff.mp whole
      · cases more with
        | nil => simp_all
        | cons a more => simp_all
      · cases more <;> simp_all
    refine ⟨⟨acts, rfl, fun a mem => middle a (inner.1 a mem)⟩, ?_⟩
    obtain mem | rfl := inner.2
    · exact (middle act mem).1
    · obtain rfl | rfl := ending <;> decide

/-- An open session that got some calls, and what is on disk of it. -/
structure Running (dir runId : String) (calls : List RecorderCall) (s : Session)
    (saved : Option (List UnitHits)) : Prop where
  dir_eq : s.dir = dir
  runId_eq : s.runId = runId
  unlimited : s.scope = none
  units_eq : s.units = tableOf calls
  fresh : s.units = [] → saved = none
  clean : s.dirty = false → saved = kept s.units

namespace Running

variable {dir runId : String} {calls : List RecorderCall} {s : Session}
  {saved : Option (List UnitHits)}

theorem start (dir runId : String) :
    Running dir runId [] ⟨dir, runId, none, [], false⟩ none :=
  ⟨rfl, rfl, rfl, rfl, fun _ => rfl, fun _ => rfl⟩

theorem hear (h : Running dir runId calls s saved) (call : RecorderCall) :
    Running dir runId (calls ++ [call]) (s.hear call) saved := by
  rw [Session.hear_eq h.unlimited call]
  refine ⟨h.dir_eq, h.runId_eq, h.unlimited, ?_, fun none => ?_, nofun⟩
  · simp [h.units_eq, tableOf]
  · exact absurd none (hear_ne_nil _ _)

theorem hear_all (dir runId : String) (calls : List RecorderCall) :
    Running dir runId calls (calls.foldl Session.hear ⟨dir, runId, none, [], false⟩) none := by
  induction calls using List.reverseRecOn with
  | nil => exact start dir runId
  | append_singleton calls call ih =>
    rw [List.foldl_append]
    exact ih.hear call

end Running

/-- What was done with a run tells what is left of it in memory and on disk. -/
structure Standing (dir runId : String) (acts : List SessionAct) (session : Option Session)
    (saved : Option (List UnitHits)) : Prop where
  unborn : acts = [] → session = none ∧ saved = none
  alive : Opened acts → ∃ s, session = some s ∧ Running dir runId (heardIn acts) s saved
  safe : acts.getLast? = some .flush ∨ acts.getLast? = some .close →
    saved = kept (tableOf (heardIn acts))

theorem heardIn_concat_hear (acts : List SessionAct) (call : RecorderCall) :
    heardIn (acts ++ [.hear call]) = heardIn acts ++ [call] := by
  simp [heardIn]

theorem heardIn_concat_flush (acts : List SessionAct) : heardIn (acts ++ [.flush]) = heardIn acts := by
  simp [heardIn]

theorem heardIn_concat_close (acts : List SessionAct) : heardIn (acts ++ [.close]) = heardIn acts := by
  simp [heardIn]

theorem not_opened_close {acts : List SessionAct} (h : acts ≠ []) : ¬Opened (acts ++ [.close]) := by
  rintro ⟨since, whole, middle⟩
  obtain ⟨first, rest, rfl⟩ := List.exists_cons_of_ne_nil h
  simp only [List.cons_append, List.cons.injEq] at whole
  exact (middle .close (by simp [← whole.2])).2 rfl

theorem Opened.ne_nil {acts : List SessionAct} (h : Opened acts) : acts ≠ [] := by
  obtain ⟨since, rfl, _⟩ := h
  exact List.cons_ne_nil _ _

namespace Standing

variable {dir runId : String} {acts : List SessionAct} {s : Session} {saved : Option (List UnitHits)}

theorem start : Standing dir runId [.start] (some ⟨dir, runId, none, [], false⟩) none := by
  refine ⟨nofun, fun _ => ⟨_, rfl, Running.start dir runId⟩, ?_⟩
  rintro (h | h) <;> cases h

theorem hear (h : Running dir runId (heardIn acts) s saved) (call : RecorderCall) :
    Standing dir runId (acts ++ [.hear call]) (some (s.hear call)) saved := by
  refine ⟨by simp, fun _ => ⟨_, rfl, ?_⟩, by simp⟩
  rw [heardIn_concat_hear]
  exact h.hear call

theorem flush (h : Running dir runId (heardIn acts) s saved) :
    Standing dir runId (acts ++ [.flush]) (some { s with dirty := false }) (kept s.units) := by
  refine ⟨by simp, fun _ => ⟨_, rfl, ?_⟩, fun _ => ?_⟩
  · rw [heardIn_concat_flush]
    refine ⟨h.dir_eq, h.runId_eq, h.unlimited, h.units_eq, fun none => ?_, fun _ => rfl⟩
    rw [kept, if_pos (List.isEmpty_iff.mpr none)]
  · rw [heardIn_concat_flush, h.units_eq]

theorem close (h : Running dir runId (heardIn acts) s saved) (opened : Opened acts) :
    Standing dir runId (acts ++ [.close]) none (kept s.units) := by
  refine ⟨by simp, fun again => absurd again (not_opened_close opened.ne_nil), fun _ => ?_⟩
  rw [heardIn_concat_close, h.units_eq]

end Standing

section Run

variable {dir runId : String} {place : Place} {r : Recording} {acts : String → List SessionAct}
  {saved : String → Option (List UnitHits)} {act : SessionAct}

theorem actsOf_concat (runId other : String) (act : SessionAct) (history : History) :
    actsOf other (history ++ [(runId, act)]) =
      if other = runId then actsOf other history ++ [act] else actsOf other history := by
  by_cases mine : other = runId
  · simp [actsOf, mine]
  · simp [actsOf, mine, Ne.symm mine]

/-- What all sessions know, and what is on disk of them. -/
structure Stands (dir : String) (place : Place) (history : History) (r : Recording)
    (saved : String → Option (List UnitHits)) : Prop where
  holds : Holds r.tree dir place saved
  each : ∀ runId, Standing dir runId (actsOf runId history) (r.sessions runId) (saved runId)
  faultless : r.faults = []

/-- An act is an act on one session. -/
theorem Stands.set {history : History} (h : Stands dir place history r saved) {session : Option Session}
    {tree : FileTree} {left : Option (List UnitHits)}
    (holds : Holds tree dir place (Function.update saved runId left))
    (now : Standing dir runId (actsOf runId history ++ [act]) session left) :
    Stands dir place (history ++ [(runId, act)]) (r.set runId session tree)
      (Function.update saved runId left) := by
  refine ⟨holds, fun other => ?_, h.faultless⟩
  rw [actsOf_concat, Recording.set]
  by_cases mine : other = runId
  · subst mine
    simpa using now
  · simpa [mine] using h.each other

/-- Whatever is done with one session, the others stay as they are, and no write fails. -/
theorem Stands.perform {history : History} (h : Stands dir place history r saved)
    (id : RunId runId) (lawful : Lawful (actsOf runId history ++ [act])) :
    ∃ saved', Stands dir place (history ++ [(runId, act)]) (r.perform dir runId act) saved' := by
  obtain ⟨none, rfl⟩ | ⟨opened, other⟩ := lawful.last
  · obtain ⟨_, unsaved⟩ := (h.each runId).unborn none
    refine ⟨Function.update saved runId Option.none, ?_⟩
    rw [Recording.perform, h.holds.start runId]
    refine h.set ?_ (by rw [none]; exact Standing.start)
    rw [← unsaved, Function.update_eq_self]
    exact h.holds
  obtain ⟨s, session, running⟩ := (h.each runId).alive opened
  have id' : RunId s.runId := running.runId_eq ▸ id
  have fresh : s.units = [] → saved s.runId = none := running.runId_eq ▸ running.fresh
  cases act with
  | start => exact absurd rfl other
  | hear call =>
    refine ⟨Function.update saved runId (saved runId), ?_⟩
    rw [Recording.perform, session]
    refine h.set ?_ (Standing.hear running call)
    rw [Function.update_eq_self]
    exact h.holds
  | flush =>
    obtain ⟨path, tree, flushed, holds⟩ := h.holds.flush id' running.dir_eq fresh
    refine ⟨Function.update saved runId (kept s.units), ?_⟩
    rw [Recording.perform, session]
    simp only [flushed, Recording.blame]
    exact h.set (running.runId_eq ▸ holds) (Standing.flush running)
  | close =>
    have clean : s.dirty = false → saved s.runId = kept s.units :=
      running.runId_eq ▸ running.clean
    have holds := h.holds.close id' running.dir_eq fresh clean
    refine ⟨Function.update saved runId (kept s.units), ?_⟩
    rw [Recording.perform, session]
    exact h.set (running.runId_eq ▸ holds) (Standing.close running opened)

theorem Lawful.of_append {acts more : List SessionAct} (h : Lawful (acts ++ more)) : Lawful acts := by
  obtain none | ⟨rest, life⟩ := h
  · exact .inl (List.append_eq_nil_iff.mp none).1
  · exact .inr ⟨more ++ rest, by rwa [← List.append_assoc]⟩

theorem after_stands {tree : FileTree} (start : Holds tree dir place fun _ => none)
    {history : History} (ids : ∀ e ∈ history, RunId e.1)
    (lawful : ∀ runId, Lawful (actsOf runId history)) :
    ∃ saved, Stands dir place history (Recording.after dir tree history) saved := by
  induction history using List.reverseRecOn with
  | nil =>
    refine ⟨fun _ => none, start, fun runId => ?_, rfl⟩
    refine ⟨fun _ => ⟨rfl, rfl⟩, fun opened => absurd rfl opened.ne_nil, ?_⟩
    rintro (h | h) <;> cases h
  | append_singleton history e ih =>
    obtain ⟨runId, act⟩ := e
    have next := lawful runId
    rw [actsOf_concat, if_pos rfl] at next
    obtain ⟨saved, so_far⟩ := ih (fun e mem => ids e (List.mem_append_left _ mem)) fun other => by
      have later := lawful other
      rw [actsOf_concat] at later
      split at later
      · exact later.of_append
      · exact later
    obtain ⟨saved', now⟩ := so_far.perform (ids (runId, act) (by simp)) next
    refine ⟨saved', ?_⟩
    rw [Recording.after, List.foldl_append]
    exact now

end Run

theorem runsOf_nodup (history : History) : (runsOf history).Nodup := List.nodup_dedup _

theorem mem_runsOf {runId : String} {history : History} :
    runId ∈ runsOf history ↔ actsOf runId history ≠ [] := by
  simp [runsOf, actsOf, List.filter_eq_nil_iff]

namespace Lived

variable {history : History}

theorem life (h : Lived history) {runId : String} (used : actsOf runId history ≠ []) :
    Life (actsOf runId history) := by
  obtain ⟨e, mem, rfl⟩ := List.mem_map.mp (List.mem_dedup.mp (mem_runsOf.mpr used))
  exact h.lives e mem

theorem lawful (h : Lived history) (runId : String) : Lawful (actsOf runId history) := by
  by_cases unused : actsOf runId history = []
  · exact .inl unused
  · exact .inr ⟨[], by simpa using h.life unused⟩

/-- At the end everything that was counted is on disk. -/
theorem saved_eq (h : Lived history) {dir : String} {place : Place} {r : Recording}
    {saved : String → Option (List UnitHits)} (stands : Stands dir place history r saved)
    (runId : String) : saved runId = kept (tableOf (callsOf runId history)) := by
  by_cases unused : actsOf runId history = []
  · rw [((stands.each runId).unborn unused).2, callsOf, unused]
    rfl
  · obtain ⟨before, last, whole, _, ending⟩ := h.life unused
    refine (stands.each runId).safe ?_
    rw [whole, List.getLast?_concat]
    simpa using ending

end Lived

theorem kept_isSome {calls : List RecorderCall} :
    (kept (tableOf calls)).isSome = true ↔ calls ≠ [] := by
  rw [kept, Ne, ← tableOf_eq_nil_iff]
  split <;> simp_all

theorem kept_getD (units : List UnitHits) : (kept units).getD [] = units := by
  rw [kept]
  split <;> simp_all

/-- Sessions that share an empty directory, are used in any order, and are all flushed or closed in
the end, lose nothing and count nothing twice. No write fails, the merge takes one file for each
session that recorded anything and skips none, and a span has the sum of the times that it was
recorded. When sessions were flushed does not matter, nor does the order between them. -/
theorem merge_exact {tree : FileTree} {dir : String} {history : History} (wf : tree.WellFormed)
    (empty : tree.list dir = .ok []) (lived : Lived history)
    (fits : ∀ runId unit span, (callsOf runId history).count (.record unit span) < 2 ^ 64) :
    (Recording.after dir tree history).faults = [] ∧
    ∃ report, Report.merge (Recording.after dir tree history).tree dir = .ok report ∧
      report.skipped = [] ∧ report.filesMerged = (trackingRuns history).length ∧
      (∀ unit span, report.hits unit span =
        if ∃ runId ∈ runsOf history, ∃ call ∈ callsOf runId history,
          call.unit = unit ∧ span ∈ call.spans then
          some (saturated ((runsOf history).map fun runId =>
            (callsOf runId history).count (.record unit span)).sum)
        else none) ∧
      ∀ history', Lived history' →
        (∀ runId, callsOf runId history' = callsOf runId history) →
        Report.merge (Recording.after dir tree history').tree dir = .ok report := by
  obtain ⟨place, start⟩ := Holds.of_empty wf empty
  obtain ⟨saved, stands⟩ := after_stands start lived.ids lived.lawful
  have saved_eq : saved = fun runId => kept (tableOf (callsOf runId history)) :=
    funext (lived.saved_eq stands)
  subst saved_eq
  have all : ∀ runId, kept (tableOf (callsOf runId history)) ≠ none → runId ∈ runsOf history := by
    intro runId left
    refine mem_runsOf.mpr fun unused => left ?_
    rw [callsOf, unused]
    rfl
  obtain ⟨report, merged, skipped, files, sum, _⟩ :=
    stands.holds.merge (runsOf_nodup history) all
  refine ⟨stands.faultless, report, merged, skipped, ?_, fun unit span => ?_, ?_⟩
  · rw [files, savedRuns, trackingRuns]
    refine congrArg List.length (List.filter_congr fun runId _ => ?_)
    rw [Bool.eq_iff_iff, kept_isSome]
    simp
  · have units : (runsOf history).flatMap (fun runId =>
        (kept (tableOf (callsOf runId history))).getD []) =
          (runsOf history).flatMap fun runId => tableOf (callsOf runId history) :=
      congrArg (List.flatMap · _) (funext fun runId => kept_getD _)
    rw [units] at sum
    have listed : (∃ call ∈ (runsOf history).flatMap fun runId => callsOf runId history,
        call.unit = unit ∧ span ∈ call.spans) ↔ ∃ runId ∈ runsOf history,
          ∃ call ∈ callsOf runId history, call.unit = unit ∧ span ∈ call.spans := by
      simp only [List.mem_flatMap]
      tauto
    rw [Report.hits_eq_tally sum, tally_tables fits, List.count_flatMap]
    simp only [listed]
    rfl
  · intro history' lived' same
    obtain ⟨saved', stands'⟩ := after_stands start lived'.ids lived'.lawful
    have saved_eq' : saved' = fun runId => kept (tableOf (callsOf runId history)) :=
      funext fun runId => (lived'.saved_eq stands' runId).trans (by rw [same])
    subst saved_eq'
    rw [stands'.holds.merge_eq stands.holds, merged]

/-- Two sessions at once. One is flushed twice, the other is only closed. -/
def interleaved : History :=
  [("a", .start), ("b", .start),
    ("a", .hear (.instrument "demo/app" .module "app.loam" [⟨1, 1⟩, ⟨2, 1⟩])),
    ("b", .hear (.record "demo/app" ⟨1, 1⟩)), ("a", .hear (.record "demo/app" ⟨1, 1⟩)),
    ("a", .flush), ("a", .hear (.record "demo/app" ⟨1, 1⟩)), ("a", .flush), ("b", .close)]

theorem interleaved_lived : Lived interleaved := by
  have ids : ∀ runId ∈ ["a", "b"], RunId runId := by
    intro runId mem
    simp only [List.mem_cons, List.not_mem_nil, or_false] at mem
    obtain rfl | rfl := mem <;> exact ⟨by decide, by decide, by decide⟩
  have lives : ∀ runId ∈ ["a", "b"], Life (actsOf runId interleaved) := by
    intro runId mem
    simp only [List.mem_cons, List.not_mem_nil, or_false] at mem
    obtain rfl | rfl := mem
    · exact ⟨[.start, .hear (.instrument "demo/app" .module "app.loam" [⟨1, 1⟩, ⟨2, 1⟩]),
        .hear (.record "demo/app" ⟨1, 1⟩), .flush, .hear (.record "demo/app" ⟨1, 1⟩)], .flush,
        by decide, ⟨_, rfl, by decide⟩, .inl rfl⟩
    · exact ⟨[.start, .hear (.record "demo/app" ⟨1, 1⟩)], .close, by decide, ⟨_, rfl, by decide⟩,
        .inr rfl⟩
  have named : ∀ e ∈ interleaved, e.1 ∈ ["a", "b"] := by decide
  exact ⟨fun e mem => ids e.1 (named e mem), fun e mem => lives e.1 (named e mem)⟩

theorem merge_exact_interleaved :
    ∃ tree : FileTree, tree.WellFormed ∧ tree.list "/data" = .ok [] ∧ Lived interleaved ∧
      ∃ report, Report.merge (Recording.after "/data" tree interleaved).tree "/data" = .ok report ∧
        report.filesMerged = 2 ∧ report.hits "demo/app" ⟨1, 1⟩ = some 3 ∧
        report.hits "demo/app" ⟨2, 1⟩ = some 0 ∧ report.hits "demo/app" ⟨3, 1⟩ = none := by
  have wf : FileTree.WellFormed ⟨[(["data"], .dir)], []⟩ := by
    refine ⟨by decide, fun e mem => ?_⟩
    obtain rfl := List.mem_singleton.mp mem
    exact ⟨by simp, rfl⟩
  have empty : FileTree.list ⟨[(["data"], .dir)], []⟩ "/data" = .ok [] := by decide +kernel
  have fits : ∀ runId unit span,
      (callsOf runId interleaved).count (.record unit span) < 2 ^ 64 := by
    intro runId unit span
    refine Nat.lt_of_le_of_lt List.count_le_length ?_
    have short : (callsOf runId interleaved).length ≤ interleaved.length :=
      (List.length_filterMap_le _ _).trans
        ((List.length_map _).trans_le (List.length_filter_le _ _))
    exact Nat.lt_of_le_of_lt short (by decide)
  obtain ⟨_, report, merged, _, files, hits, _⟩ :=
    merge_exact wf empty interleaved_lived fits
  refine ⟨_, wf, empty, interleaved_lived, report, merged, ?_, ?_, ?_, ?_⟩
  · rw [files]
    decide
  · rw [hits]
    decide
  · rw [hits]
    decide
  · rw [hits]
    decide

end ModuleSystem.Coverage
