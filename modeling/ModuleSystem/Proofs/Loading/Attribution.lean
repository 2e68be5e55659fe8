import ModuleSystem.Proofs.Loading.CycleErrors
import ModuleSystem.Proofs.Loading.Moments

/-! A module that has failed says why: for a fault of its own, for a cycle, or for a module that its
source requires and that has failed by itself with the very failure that is told as the cause. So
the causes lead along requirements to the module where it began. -/

namespace ModuleSystem

open Relation (ReflTransGen)
open Thread (running)

namespace LoadError

/-- A failure with its cause, the cause of its cause and so on. -/
def parts : LoadError → List LoadError
  | .dependency unit cause => .dependency unit cause :: cause.parts
  | e => [e]

theorem code_rootCause (e : LoadError) : e.rootCause.code = e.code := by
  induction e with
  | dependency unit cause ih => exact ih
  | _ => rfl

end LoadError

/-- Why `p` has failed with `e`. A dependency failure is that of `p`, and its cause is what a module
has failed with that is related to `p`. -/
inductive Attributed (chain : Chain) (R : ModuleId → ModuleId → Prop) (r : Registry)
    (p : ModuleId) : LoadError → Prop
  | notFound : Attributed chain R r p (.notFound p chain.describe)
  | repository (fault : RepositoryError) : Attributed chain R r p (.repository fault)
  | compile (span : Option Coverage.Span) (message : String) :
      Attributed chain R r p (.compile p.text span message)
  | execution (span : Option Coverage.Span) (message : String) :
      Attributed chain R r p (.execution p.text span message)
  | cycle (path : List ModuleId) : Attributed chain R r p (.cycle path)
  | dependency {q : ModuleId} {cause : LoadError} (edge : R p q)
      (failed : r.state q = .failed cause) (plain : cause.isCycle = false) :
      Attributed chain R r p (.dependency p.text cause)

/-- All failures of a registry are attributed. -/
def Registry.Attributes (chain : Chain) (R : ModuleId → ModuleId → Prop) (r : Registry) : Prop :=
  ∀ p e, r.state p = .failed e → Attributed chain R r p e

section

variable {chain : Chain} {R R' : ModuleId → ModuleId → Prop} {r r' : Registry} {p : ModuleId}
  {e : LoadError}

theorem Attributed.mono (h : Attributed chain R r p e) (edges : ∀ q, R p q → R' p q)
    (kept : ∀ q cause, r.state q = .failed cause → r'.state q = .failed cause) :
    Attributed chain R' r' p e := by
  cases h with
  | notFound => exact .notFound
  | repository fault => exact .repository fault
  | compile span message => exact .compile span message
  | execution span message => exact .execution span message
  | cycle path => exact .cycle path
  | dependency edge failed plain => exact .dependency (edges _ edge) (kept _ _ failed) plain

theorem Attributed.of_isCycle (h : Attributed chain R r p e) (cycle : e.isCycle = true) :
    ∃ path, e = .cycle path := by
  cases h with
  | cycle path => exact ⟨path, rfl⟩
  | @dependency _ cause _ _ plain =>
    have inner : cause.isCycle = true := cycle
    rw [plain] at inner
    cases inner
  | _ => cases cycle

/-- The causes of a failure lead to the module that has failed with the last one of them. -/
theorem Registry.Attributes.rootCause (h : r.Attributes chain R) (failed : r.state p = .failed e) :
    ∃ q, ReflTransGen R p q ∧ r.state q = .failed e.rootCause := by
  induction e generalizing p with
  | dependency unit cause ih =>
    cases h p _ failed with
    | dependency edge below =>
      obtain ⟨q, reach, root⟩ := ih below
      exact ⟨q, .head edge reach, root⟩
  | _ => exact ⟨p, .refl, failed⟩

/-- No part of a failure wraps a cycle. -/
theorem Registry.Attributes.parts (h : r.Attributes chain R) (failed : r.state p = .failed e)
    {unit : String} {cause : LoadError} (part : .dependency unit cause ∈ e.parts) :
    cause.isCycle = false := by
  induction e generalizing p with
  | dependency unit' cause' ih =>
    cases h p _ failed with
    | dependency _ below plain =>
      obtain same | inner := List.mem_cons.mp part
      · cases same
        exact plain
      · exact ih below inner
  | _ => cases List.mem_singleton.mp part

end

section

variable {s : Surroundings} {r r₁ : Registry} {me : ThreadId} {id : ModuleId}

theorem Crew.Coherent.building {stack : List Body}
    (h : (Crew.solo r me ⟨stack, .build id⟩).Coherent) : r.cell? id = some (.loading me) := by
  apply (h.owned me id).mpr
  rw [Crew.threads_solo]
  exact List.mem_cons_self

theorem Crew.Coherent.departing {b : Body} {below : List Body} {control : Control}
    {result : Except LoadError Unit} (h : (Crew.solo r me ⟨b :: below, control⟩).Coherent)
    (unit : b.unit = .module id) (departs : b.Departs r control r₁ result) :
    r.cell? id = some (.loading me) := by
  apply (h.owned me id).mpr
  rw [Crew.threads_solo, (departs.claims (b :: below)).1, Thread.running_cons_module unit]
  exact List.mem_cons_self

theorem Registry.state_publish (quiet : r₁.cells = r.cells) {c : Cell} (claimed : r.cell? id = some c)
    (e : LoadError) : (r₁.publish id (.error e)).state id = .failed e := by
  rw [state_eq_failed_iff, cell?_publish, if_pos rfl, cell?_congr quiet, claimed]
  rfl

end

/-- The relation `R'` for the modules of a list, and `R` for all others. -/
def Renewed (old : List ModuleId) (R' R : ModuleId → ModuleId → Prop) (p q : ModuleId) : Prop :=
  if p ∈ old then R' p q else R p q

/-- What is kept of failures while a thread runs, and what the thread is told: of a cycle, or of
what has become of the module that it asked for. The modules that were claimed when it began, and
only they, point where `R` says; they all have their outcome. -/
structure Attributing (s : Surroundings) (R : ModuleId → ModuleId → Prop) (old : List ModuleId)
    (goal : Option ModuleId) (r : Registry) (t : Thread) : Prop where
  kept : r.Attributes s.chain (Renewed old R (Requires s.files s.chain))
  told : ∀ e, t.control = .answer (.error e) →
    (∃ path, e = .cycle path) ∨ ∃ q, Asks goal q t.stack ∧ r.state q = .failed e
  sourced : Sourced (Requires s.files s.chain) t.stack
  settled : ∀ p ∈ old, ∃ o, r.cell? p = some (.done o)

namespace Attributing

variable {s : Surroundings} {R : ModuleId → ModuleId → Prop} {old : List ModuleId}
  {goal : Option ModuleId} {r r' : Registry} {t t' : Thread} {me : ThreadId}

/-- A module that is loading was claimed by the thread that runs now. -/
theorem renewed (h : Attributing s R old goal r t) {p q : ModuleId} {owner : ThreadId}
    (loading : r.cell? p = some (.loading owner)) (edge : Requires s.files s.chain p q) :
    Renewed old R (Requires s.files s.chain) p q := by
  have new : p ∉ old := by
    intro mem
    obtain ⟨o, done⟩ := h.settled p mem
    rw [loading] at done
    cases done
  rw [Renewed, if_neg new]
  exact edge

/-- Why a module fails whose body the thread leaves. -/
theorem departs {b : Body} {below : List Body} {control : Control} {id : ModuleId} {r₁ : Registry}
    {result : Except LoadError Unit} {e : LoadError}
    (h : Attributing s R old goal r ⟨b :: below, control⟩) (unit : b.unit = .module id)
    (loading : r.cell? id = some (.loading me)) (departs : b.Departs r control r₁ result)
    (failed : b.outcome id result = .error e) :
    Attributed s.chain (Renewed old R (Requires s.files s.chain)) r id e := by
  have name : b.unit.text = id.text := by rw [unit]; rfl
  cases departs with
  | finish =>
    obtain ⟨message, rfl⟩ := Body.sealed_error failed
    rw [name]
    exact .execution none message
  | raise _ _ raised =>
    cases failed
    obtain ⟨message, rfl⟩ := Body.perform_error raised
    exact name ▸ .execution _ message
  | @refuse cause =>
    obtain rfl : cause.inUnit b.unit.text = e := by simpa [Body.outcome, Except.bind] using failed
    obtain ⟨path, rfl⟩ | ⟨q, ⟨more, pending⟩, below⟩ := h.told cause rfl
    · exact .cycle path
    by_cases cycle : cause.isCycle = true
    · rw [LoadError.inUnit_of_isCycle _ cycle]
      obtain ⟨path, rfl⟩ := (h.kept q cause below).of_isCycle cycle
      exact .cycle path
    · have wanted : q ∈ b.wants := by simp [Body.wants, pending]
      have edge : Requires s.files s.chain id q :=
        h.sourced b List.mem_cons_self id unit q wanted
      rw [LoadError.inUnit, if_neg cycle, name]
      exact .dependency (h.renewed loading edge) below (by simpa using cycle)

/-- Why a module has failed after a step, as far as the registry before the step can say. -/
theorem failed_step (h : Attributing s R old goal r t) (moved : Transition s me r t r' t')
    (coherent : (Crew.solo r me t).Coherent) {p : ModuleId} {e : LoadError}
    (failed : r'.state p = .failed e) :
    Attributed s.chain (Renewed old R (Requires s.files s.chain)) r p e := by
  have before : r.cell? p = some (.done (.error e)) →
      Attributed s.chain (Renewed old R (Requires s.files s.chain)) r p e :=
    fun done => h.kept p e (Registry.state_eq_failed_iff.mpr done)
  rw [Registry.state_eq_failed_iff] at failed
  cases moved with
  | claim foreign new =>
    rw [Registry.cell?_claim new] at failed
    split at failed
    · cases failed
    · exact before failed
  | settle ready =>
    obtain done | ⟨rfl, rfl⟩ := Registry.done_of_publish (s.noted_quiet _ _).1 failed
    · exact before done
    · obtain ⟨fault, rfl⟩ | rfl | ⟨span, message, rfl⟩ := Surroundings.prepare_error ready
      · exact .repository fault
      · exact .notFound
      · exact .compile span message
  | leaveModule unit departs =>
    obtain done | ⟨rfl, result⟩ := Registry.done_of_publish departs.quiet.1 failed
    · exact before done
    · exact h.departs unit (coherent.departing unit departs) departs result.symm
  | leaveScript unit departs =>
    rw [Registry.cell?_congr departs.quiet.1] at failed
    exact before failed
  | abandonModule unit =>
    obtain done | ⟨rfl, broken⟩ := Registry.done_of_publish rfl failed
    · exact before done
    · cases broken
      exact .execution none _
  | _ => exact before failed

theorem told_step (h : Attributing s R old goal r t) (moved : Transition s me r t r' t')
    (valid : t.Valid goal) (coherent : (Crew.solo r me t).Coherent) {e : LoadError}
    (told : t'.control = .answer (.error e)) :
    (∃ path, e = .cycle path) ∨ ∃ q, Asks goal q t'.stack ∧ r'.state q = .failed e := by
  cases moved with
  | own | closed =>
    cases told
    exact .inl ⟨_, rfl⟩
  | seen found | wake found =>
    cases told
    exact .inr ⟨_, valid.control, Registry.state_eq_failed_iff.mpr found⟩
  | settle ready =>
    cases told
    exact .inr ⟨_, valid.control,
      Registry.state_publish (s.noted_quiet _ _).1 coherent.building e⟩
  | leaveModule unit departs =>
    injection told with result
    rw [result]
    exact .inr ⟨_, (valid.nested.of_module unit).1,
      Registry.state_publish departs.quiet.1 (coherent.departing unit departs) e⟩
  | _ => cases told

theorem step (h : Attributing s R old goal r t) (moved : Transition s me r t r' t')
    (valid : t.Valid goal) (coherent : (Crew.solo r me t).Coherent) :
    Attributing s R old goal r' t' := by
  have stays : ∀ id o, r.cell? id = some (.done o) → r'.cell? id = some (.done o) :=
    fun id o done => coherent.done_solo moved done
  constructor
  · intro p e failed
    apply (h.failed_step moved coherent failed).mono (fun q edge => edge)
    intro q cause failed
    rw [Registry.state_eq_failed_iff] at failed ⊢
    exact stays q _ failed
  · intro e told
    exact h.told_step moved valid coherent told
  · apply moved.sourced _ h.sourced
    intro id source p ready
    exact requires_of_prepare s.held s.broken ready
  · intro p mem
    obtain ⟨o, done⟩ := h.settled p mem
    exact ⟨o, stays p o done⟩

end Attributing

theorem Thread.Begins.attributing {s : Surroundings} {R : ModuleId → ModuleId → Prop}
    {goal : Option ModuleId} {r : Registry} {t : Thread} (begins : t.Begins goal)
    (rested : r.Rested) (before : r.Attributes s.chain R) :
    Attributing s R r.claimed goal r t := by
  constructor
  · intro p e failed
    have old : p ∈ r.claimed :=
      Registry.mem_claimed_iff.mpr ⟨_, Registry.state_eq_failed_iff.mp failed⟩
    apply (before p e failed).mono _ (fun q cause failed => failed)
    intro q edge
    rwa [Renewed, if_pos old]
  · intro e told
    cases begins <;> cases told
  · intro b mem id unit
    cases begins with
    | load id => cases mem
    | script script noPending =>
      rw [List.mem_singleton.mp mem, script] at unit
      cases unit
  · intro p mem
    obtain ⟨c, found⟩ := Registry.mem_claimed_iff.mp mem
    cases c with
    | loading owner => exact absurd found (rested.done p owner)
    | done o => exact ⟨o, found⟩

/-- While a thread runs, all failures stay attributed: those of modules that were claimed before to
what they required then, all others to what the contents are now. -/
theorem Start.attributed {start : Start} {goal : Option ModuleId} (ready : start.Ready goal)
    (s : Surroundings) {R : ModuleId → ModuleId → Prop}
    (before : start.registry.Attributes s.chain R) (n : Nat) :
    (start.moment s n).1.Attributes s.chain
      (Renewed start.registry.claimed R (Requires s.files s.chain)) := by
  let P (r : Registry) (t : Thread) : Prop :=
    Attributing s R start.registry.claimed goal r t ∧ t.Valid goal ∧
      (Crew.solo r start.me t).Coherent
  have keeps : ∀ {r r' t t'}, Transition s start.me r t r' t' → P r t → P r' t' := by
    rintro r r' t t' moved ⟨attributing, valid, coherent⟩
    exact ⟨attributing.step moved valid coherent, moved.valid valid, coherent.move_solo moved⟩
  have begins : P start.registry start.thread :=
    ⟨ready.begins.attributing ready.rested before, ready.begins.valid,
      ready.begins.coherent ready.rested start.me⟩
  exact (runSteps_keeps (P := P) keeps n begins).1.kept

namespace Runtime

/-- The source of `p` requires `q`, in the contents that the operation met which claimed `p`. -/
inductive Required (rt : Runtime) (ops : List (FileTree × Call)) (p q : ModuleId) : Prop
  | mk (before after : List (FileTree × Call)) {files : FileTree} {call : Call}
      (split : ops = before ++ (files, call) :: after)
      (new : (rt.run before).loader.registry.state p = .unloaded)
      (claimed : (rt.run (before ++ [(files, call)])).loader.registry.state p ≠ .unloaded)
      (edge : Requires files rt.loader.chain p q)

theorem Required.extend {rt : Runtime} {ops : List (FileTree × Call)} {p q : ModuleId}
    (h : rt.Required ops p q) (more : List (FileTree × Call)) : rt.Required (ops ++ more) p q := by
  obtain ⟨before, after, split, new, claimed, edge⟩ := h
  exact ⟨before, after ++ more, by simp [split], new, claimed, edge⟩

variable {rt : Runtime} {before : List (FileTree × Call)} {files : FileTree} {call : Call}
  {start : Start}

theorem chain_run (idle : rt.loader.Idle) (ops : List (FileTree × Call)) :
    (rt.run ops).loader.chain = rt.loader.chain := by
  induction ops generalizing rt with
  | nil => rfl
  | cons op rest ih =>
    have serves := serves_call idle op.1 op.2
    exact (ih serves.idle).trans serves.fixed.1

/-- The failures in the middle of an operation. -/
theorem attributes_within (idle : rt.loader.Idle)
    (h : (rt.run before).loader.registry.Attributes rt.loader.chain (rt.Required before))
    (begun : (rt.run before).start? files call = some start) (n : Nat) :
    (start.moment ((rt.run before).loader.surroundings files) n).1.Attributes rt.loader.chain
      (rt.Required (before ++ [(files, call)])) := by
  obtain ⟨goal, ready, cells, last, ending, ended, _⟩ := call_start (idle_run idle before) begun
  have chain := chain_run idle before
  have same : ∀ p, start.registry.state p = (rt.run before).loader.registry.state p := by
    intro p
    rw [Registry.state, Registry.cell?_congr cells, Registry.state]
  have old : start.registry.Attributes ((rt.run before).loader.surroundings files).chain
      (rt.Required before) := by
    intro p e failed
    rw [same] at failed
    apply chain ▸ (h p e failed).mono (fun q edge => edge) _
    intro q cause failed
    rwa [same]
  intro p e failed
  have attributed := Start.attributed ready _ old n p e failed
  have chain' : ((rt.run before).loader.surroundings files).chain = rt.loader.chain := chain
  rw [chain'] at attributed
  apply attributed.mono _ (fun q cause failed => failed)
  intro q edge
  unfold Renewed at edge
  split at edge
  · exact edge.extend _
  · next absent =>
    refine ⟨before, [], rfl, ?_, ?_, edge⟩
    · rwa [← same, Registry.state_eq_unloaded_iff, Registry.cell?_eq_none_iff]
    · -- The module still has its outcome when the operation is over.
      have done := ready.kept (Registry.state_eq_failed_iff.mp failed) last
      rw [Nat.add_comm, Start.moment_of_ended ended] at done
      rw [run_append, Ne, Registry.state_eq_unloaded_iff]
      simp only [run]
      rw [done]
      simp

/-- The failures between two operations. -/
theorem attributes_run (idle : rt.loader.Idle) (fresh : rt.loader.registry.claimed = [])
    (ops : List (FileTree × Call)) :
    (rt.run ops).loader.registry.Attributes rt.loader.chain (rt.Required ops) := by
  induction ops using List.reverseRecOn with
  | nil =>
    intro p e failed
    have none : rt.loader.registry.cell? p = none := by
      rw [Registry.cell?_eq_none_iff, fresh]
      exact List.not_mem_nil
    have done := Registry.state_eq_failed_iff.mp failed
    rw [run, none] at done
    cases done
  | append_singleton before op ih =>
    obtain ⟨files, call⟩ := op
    cases begun : (rt.run before).start? files call with
    | some start =>
      obtain ⟨goal, _, _, last, ending, ended, _⟩ := call_start (idle_run idle before) begun
      have within := attributes_within idle ih begun last
      rw [ended] at within
      rw [run_append]
      exact within
    | none =>
      intro p e failed
      rw [run_append] at failed
      apply (ih p e (call_still begun failed)).mono (fun q edge => edge.extend _)
      intro q cause failed
      rw [Registry.state_eq_failed_iff] at failed ⊢
      rw [run_append]
      exact (serves_call (idle_run idle before) files call).kept q _ failed

/-- Every failure that is kept is attributed, whatever is loaded, run and registered, however the
contents change in between, and also while an operation is still running. No part of it wraps a
cycle, it has the code of its root cause, and that is what a module has failed with that its
requirements lead to. -/
theorem failures_attributed (chain : Chain) (recorder : Recorder) (broken : List String)
    {ops : List (FileTree × Call)} {registry : Registry}
    (passes : (create chain recorder broken).Passes ops registry) {p : ModuleId} {e : LoadError}
    (failed : registry.state p = .failed e) :
    let R := (create chain recorder broken).Required ops
    Attributed chain R registry p e ∧
    (∀ unit cause, .dependency unit cause ∈ e.parts → cause.isCycle = false) ∧
    e.code = e.rootCause.code ∧
    ∃ q, ReflTransGen R p q ∧ registry.state q = .failed e.rootCause := by
  intro R
  have idle := idle_create chain recorder broken
  have attributes : registry.Attributes chain R := by
    cases passes with
    | between => exact attributes_run idle rfl ops
    | within begun n => exact attributes_within idle (attributes_run idle rfl _) begun n
  exact ⟨attributes p e failed, fun unit cause part => attributes.parts failed part,
    e.code_rootCause.symm, attributes.rootCause failed⟩

/-- The first operation meets a source of `/a` that requires a missing module. The second one meets
another source of `/a`, but `/a` has failed by then, and so `/d` fails, which requires it. -/
theorem failures_attributed_wrapped :
    let source (name text : String) : Place × FileNode :=
      (["src", name], .file (Utf8.encode text))
    let first : FileTree := ⟨[(["src"], .dir), source "a.loam" "[\"require\", \"/b\"]"], []⟩
    let second : FileTree := ⟨[(["src"], .dir), source "a.loam" "[\"doc\", \"mended\"]",
      source "d.loam" "[\"require\", \"/a\"]"], []⟩
    let a : ModuleId := ⟨"/a", by decide⟩
    let b : ModuleId := ⟨"/b", by decide⟩
    let d : ModuleId := ⟨"/d", by decide⟩
    let rt := create [.directory "/"] .off []
    let ops : List (FileTree × Call) := [(first, .load a), (second, .load d)]
    let registry := (rt.run ops).loader.registry
    let root : LoadError := .notFound b (Chain.describe [.directory "/"])
    registry.state d = .failed (.dependency "/d" (.dependency "/a" root)) ∧
      ∃ q, ReflTransGen (rt.Required ops) d q ∧ registry.state q = .failed root := by
  intro source first second a b d rt ops registry root
  have failed : registry.state d = .failed (.dependency "/d" (.dependency "/a" root)) :=
    Reply.error?_state.mp (by decide +kernel)
  have passes : rt.Passes ops registry := .between ops
  exact ⟨failed, (failures_attributed [.directory "/"] .off [] passes failed).2.2.2⟩

end Runtime
end ModuleSystem
