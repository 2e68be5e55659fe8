import ModuleSystem.Proofs.Coverage.Counting
import ModuleSystem.Proofs.Loading.OrderFree

namespace ModuleSystem

open Coverage (Session about about_concat)
open Form (Program)
open Thread (running)

namespace Body

/-- All forms have run. -/
def Finished (b : Body) : Prop := b.pending = [] ∧ b.rest = []

/-- A form fails, or it requires a module that has failed. `left` are the forms after that one. -/
inductive Breaks (lib : Library) (id : ModuleId) (b : Body) : (left : Program) → LoadError → Prop
  | raise {form : Form.Located} {rest : Program} {e : LoadError} (noPending : b.pending = [])
      (next : b.rest = form :: rest) (failed : { b with rest }.perform form = .error e) :
      Breaks lib id b rest e
  | refuse {q : ModuleId} {more : List ModuleId} {e : LoadError} (next : b.pending = q :: more)
      (cause : Verdict lib q (.error e)) : Breaks lib id b b.rest (e.inUnit id.text)

end Body

/-- All forms of a module run, but it cannot be sealed. -/
def SealFails (lib : Library) (id : ModuleId) (e : LoadError) : Prop :=
  ∃ b, Comes lib id (.running b) ∧ b.Finished ∧ b.sealed id = .error e

/-- The body of a module fails at its `k`-th form, counted from one. -/
def FailsAt (lib : Library) (id : ModuleId) (k : Nat) (e : LoadError) : Prop :=
  ∃ source p b left, lib id = .program source p ∧ Comes lib id (.running b) ∧
    b.Breaks lib id left e ∧ p.length = k + left.length

section

variable {lib : Library} {id : ModuleId} {b b' : Body} {left left' : Program} {e : LoadError}

theorem Body.Finished.last (h : b.Finished) :
    ¬Advances (Settles lib) id (.running b) (.running b') := by
  intro step
  cases step with
  | perform _ next =>
    rw [h.2] at next
    cases next
  | receive next =>
    rw [h.1] at next
    cases next

theorem Body.Breaks.last (h : b.Breaks lib id left e) :
    ¬Advances (Settles lib) id (.running b) (.running b') := by
  intro step
  cases h with
  | raise noPending next failed =>
    cases step with
    | perform _ next' done =>
      obtain ⟨rfl, rfl⟩ := List.cons.inj (next.symm.trans next')
      rw [failed] at done
      cases done
    | receive next' =>
      rw [noPending] at next'
      cases next'
  | refuse next cause =>
    cases step with
    | perform noPending =>
      rw [noPending] at next
      cases next
    | receive next' got =>
      obtain ⟨rfl, -⟩ := List.cons.inj (next.symm.trans next')
      -- The module cannot have come and have failed as well.
      cases cause.agrees (.settled got)

/-- A body that does not go on is the last one that its module comes to. -/
theorem Comes.last_unique (come : Comes lib id (.running b)) (come' : Comes lib id (.running b'))
    (last : ∀ y, ¬Advances (Settles lib) id (.running b) (.running y))
    (last' : ∀ y, ¬Advances (Settles lib) id (.running b') (.running y)) : b = b' := by
  have stays : ∀ {b b' : Body}, (∀ y, ¬Advances (Settles lib) id (.running b) (.running y)) →
      Relation.ReflTransGen (Advances (Settles lib) id) (.running b) (.running b') → b = b' := by
    intro b b' last path
    obtain same | ⟨z, step, rest⟩ := path.cases_head
    · cases same
      rfl
    · cases z with
      | running y => exact absurd step (last y)
      | done o => cases eq_of_done rest
  obtain path | path := come.linked come'
  · exact stays last path
  · exact (stays last' path).symm

theorem Body.Breaks.unique (h : b.Breaks lib id left e) {e' : LoadError}
    (h' : b.Breaks lib id left' e') : left = left' := by
  cases h with
  | raise noPending next =>
    cases h' with
    | raise _ next' => exact (List.cons.inj (next.symm.trans next')).2
    | refuse next' =>
      rw [noPending] at next'
      cases next'
  | refuse next =>
    cases h' with
    | raise noPending =>
      rw [noPending] at next
      cases next
    | refuse => rfl

theorem Body.Breaks.unfinished (h : b.Breaks lib id left e) : ¬b.Finished := by
  rintro ⟨noPending, noRest⟩
  cases h with
  | raise _ next =>
    rw [noRest] at next
    cases next
  | refuse next =>
    rw [noPending] at next
    cases next

theorem Comes.not_failsAt (come : Comes lib id (.running b)) (finished : b.Finished) (k : Nat) :
    ¬FailsAt lib id k e := by
  rintro ⟨_, _, b', _, _, come', breaks, _⟩
  obtain rfl := come.last_unique come' (fun _ => finished.last) (fun _ => breaks.last)
  exact breaks.unfinished finished

theorem Comes.not_sealFails (come : Comes lib id (.running b)) (breaks : b.Breaks lib id left e)
    (e' : LoadError) : ¬SealFails lib id e' := by
  rintro ⟨b', come', finished, _⟩
  obtain rfl := come.last_unique come' (fun _ => breaks.last) (fun _ => finished.last)
  exact breaks.unfinished finished

theorem FailsAt.place {source : String} {p : Program} {k : Nat} {e' : LoadError}
    (h : FailsAt lib id k e') (ready : lib id = .program source p)
    (come : Comes lib id (.running b)) (breaks : b.Breaks lib id left e) :
    p.length = k + left.length := by
  obtain ⟨source', p', b', left', ready', come', breaks', place⟩ := h
  obtain rfl := come.last_unique come' (fun _ => breaks.last) (fun _ => breaks'.last)
  obtain rfl := breaks.unique breaks'
  rw [ready] at ready'
  cases ready'
  exact place

end

/-- The calls about a module whose forms in `done` have begun. -/
def moduleCalls (id : ModuleId) (source : String) (p done : Program) : List RecorderCall :=
  .instrument id.text .module source p.spans :: done.map fun form => .record id.text form.span

/-- What is heard of a module when all its forms but those in `left` have begun. -/
def Heard (lib : Library) (id : ModuleId) (left : Program) (heard : List RecorderCall) : Prop :=
  ∃ source p done, lib id = .program source p ∧ p = done ++ left ∧
    heard = moduleCalls id source p done

/-- The outcome of a module, and what was heard of it by then. -/
inductive Tells (lib : Library) (id : ModuleId) : (heard : List RecorderCall) → Outcome → Prop
  | silent {o : Outcome} (ready : lib id = .outcome o) : Tells lib id [] o
  | finished {b : Body} {heard : List RecorderCall} (come : Comes lib id (.running b))
      (done : b.Finished) (all : Heard lib id [] heard) : Tells lib id heard (b.sealed id)
  | broken {b : Body} {left : Program} {e : LoadError} {heard : List RecorderCall}
      (come : Comes lib id (.running b)) (breaks : b.Breaks lib id left e)
      (part : Heard lib id left heard) : Tells lib id heard (.error e)

/-- How far a module came that was compiled: the calls about it, and why there are no more. -/
theorem Tells.reach {lib : Library} {id : ModuleId} {heard : List RecorderCall} {o : Outcome}
    {source : String} {p : Program} (h : Tells lib id heard o) (ready : lib id = .program source p) :
    ∃ done left, p = done ++ left ∧ heard = moduleCalls id source p done ∧
      (∀ m, o = .ok m → left = []) ∧
      (∀ e, o = .error e → SealFails lib id e ∨ FailsAt lib id done.length e) ∧
      (∀ e, SealFails lib id e → left = []) ∧ ∀ k e, FailsAt lib id k e → done.length = k := by
  have same : ∀ {left}, Heard lib id left heard → ∃ done, p = done ++ left ∧
      heard = moduleCalls id source p done := by
    rintro left ⟨source', p', done, ready', whole, calls⟩
    rw [ready] at ready'
    cases ready'
    exact ⟨done, whole, calls⟩
  cases h with
  | silent ready' =>
    rw [ready] at ready'
    cases ready'
  | finished come finished all =>
    obtain ⟨done, whole, calls⟩ := same all
    refine ⟨done, [], whole, calls, fun _ _ => rfl, fun e failed => ?_, fun _ _ => rfl, ?_⟩
    · exact .inl ⟨_, come, finished, failed⟩
    · intro k e fails
      exact absurd fails (come.not_failsAt finished k)
  | broken come breaks part =>
    obtain ⟨done, whole, calls⟩ := same part
    refine ⟨done, _, whole, calls, nofun, ?_, ?_, ?_⟩
    · rintro _ ⟨⟩
      exact .inr ⟨source, p, _, _, ready, come, breaks, by rw [whole, List.length_append]⟩
    · intro e fails
      exact absurd fails (come.not_sealFails breaks e)
    · intro k e fails
      have place := fails.place ready come breaks
      rw [whole, List.length_append] at place
      omega

theorem Heard.start {lib : Library} {id : ModuleId} {source : String} {p : Program}
    (ready : lib id = .program source p) :
    Heard lib id p [.instrument id.text .module source p.spans] :=
  ⟨source, p, [], ready, rfl, rfl⟩

theorem Heard.form {lib : Library} {id : ModuleId} {form : Form.Located} {left : Program}
    {heard : List RecorderCall} (h : Heard lib id (form :: left) heard) :
    Heard lib id left (heard ++ [.record id.text form.span]) := by
  obtain ⟨source, p, done, ready, whole, rfl⟩ := h
  exact ⟨source, p, done ++ [form], ready, by simp [whole], by simp [moduleCalls]⟩

/-- What a session was told that listens from the start, and what became of the modules. -/
structure Registry.Recalls (lib : Library) (s : Session) (calls : List RecorderCall)
    (r : Registry) : Prop where
  recorder : r.recorder = .session (calls.foldl Session.hear s)
  modules : ∀ call ∈ calls, call.entry.kind = .module ∧ ∃ id : ModuleId, call.unit = id.text
  silent : ∀ id, r.cell? id = none → about id.text calls = []
  told : ∀ id o, r.cell? id = some (.done o) → Tells lib id (about id.text calls) o

/-- The same while a thread runs. -/
structure Recounts (lib : Library) (s : Session) (calls : List RecorderCall) (r : Registry)
    (t : Thread) : Prop where
  recalls : r.Recalls lib s calls
  unbuilt : ∀ id, t.control = .build id → about id.text calls = []
  bodies : ∀ b ∈ t.stack, ∀ id, b.unit = .module id → Heard lib id b.rest (about id.text calls)

section

variable {lib : Library} {s : Session} {calls : List RecorderCall} {r r' : Registry} {me : ThreadId}
  {id x : ModuleId} {call : RecorderCall} {o : Outcome}

/-- A call about one module tells nothing of the others. -/
theorem about_other (mine : call.unit = id.text) (other : x ≠ id) :
    about x.text (calls ++ [call]) = about x.text calls := by
  rw [about_concat, if_neg]
  intro same
  exact other (ModuleId.eq_of_text (same.symm.trans mine))

theorem about_mine (mine : call.unit = id.text) :
    about id.text (calls ++ [call]) = about id.text calls ++ [call] := by
  rw [about_concat, if_pos mine]

namespace Registry.Recalls

theorem quiet (h : r.Recalls lib s calls) (cells : r'.cells = r.cells)
    (recorder : r'.recorder = r.recorder) : r'.Recalls lib s calls := by
  refine ⟨recorder.trans h.recorder, h.modules, fun id none => ?_, fun id o done => ?_⟩
  · rw [Registry.cell?_congr cells] at none
    exact h.silent id none
  · rw [Registry.cell?_congr cells] at done
    exact h.told id o done

theorem claim (h : r.Recalls lib s calls) (new : r.cell? id = none) :
    (r.claim id me).Recalls lib s calls := by
  refine ⟨h.recorder, h.modules, fun x none => ?_, fun x o done => ?_⟩
  · rw [Registry.cell?_claim new] at none
    split at none
    · cases none
    · exact h.silent x none
  · rw [Registry.cell?_claim new] at done
    split at done
    · cases done
    · exact h.told x o done

theorem publish (h : r.Recalls lib s calls) (told : Tells lib id (about id.text calls) o) :
    (r.publish id o).Recalls lib s calls := by
  refine ⟨h.recorder, h.modules, fun x none => ?_, fun x o' done => ?_⟩
  · rw [Registry.cell?_publish] at none
    split at none
    · next same =>
      subst same
      exact h.silent x (Option.map_eq_none_iff.mp none)
    · exact h.silent x none
  · obtain old | ⟨rfl, rfl⟩ := Registry.done_of_publish rfl done
    · exact h.told x o' old
    · exact told

/-- A call about a module that is loading concerns no module that is told of. -/
theorem hear (h : r.Recalls lib s calls) (loading : r.cell? id = some (.loading me))
    (mine : call.unit = id.text) (kind : call.entry.kind = .module) (cells : r'.cells = r.cells)
    (recorder : ∀ s : Session, r.recorder = .session s → r'.recorder = .session (s.hear call)) :
    r'.Recalls lib s (calls ++ [call]) := by
  have other : ∀ x c, r.cell? x = c → (∀ owner, c ≠ some (.loading owner)) → x ≠ id := by
    rintro x c here free rfl
    exact free me (here.symm.trans loading)
  refine ⟨?_, fun call' mem => ?_, fun x none => ?_, fun x o done => ?_⟩
  · rw [List.foldl_append]
    exact recorder _ h.recorder
  · obtain old | new := List.mem_append.mp mem
    · exact h.modules call' old
    · rw [List.mem_singleton.mp new]
      exact ⟨kind, id, mine⟩
  · rw [Registry.cell?_congr cells] at none
    rw [about_other mine (other x _ none (by simp))]
    exact h.silent x none
  · rw [Registry.cell?_congr cells] at done
    rw [about_other mine (other x _ done (by simp))]
    exact h.told x o done

theorem record (h : r.Recalls lib s calls) (loading : r.cell? id = some (.loading me))
    (span : Coverage.Span) :
    (r.record id.text span).Recalls lib s (calls ++ [.record id.text span]) := by
  refine h.hear loading rfl rfl rfl ?_
  intro s listens
  rw [Registry.record, listens]
  rfl

theorem reported (h : r.Recalls lib s calls) (loading : r.cell? id = some (.loading me))
    (source : String) (p : Program) : (r.reported (.module id) source p).Recalls lib s
      (calls ++ [.instrument id.text .module source p.spans]) := by
  refine h.hear loading rfl rfl rfl ?_
  intro s listens
  simp only [Registry.reported, Registry.note, Registry.instrument, listens]
  rfl

end Registry.Recalls

/-- A call about a module tells nothing of the bodies that wait for it. -/
theorem heard_below {below : List Body} (mine : call.unit = id.text) (once : id ∉ running below)
    (bodies : ∀ b ∈ below, ∀ x, b.unit = .module x → Heard lib x b.rest (about x.text calls)) :
    ∀ b ∈ below, ∀ x, b.unit = .module x →
      Heard lib x b.rest (about x.text (calls ++ [call])) := by
  intro b mem x unit
  have other : x ≠ id := by
    rintro rfl
    exact once (List.mem_filterMap.mpr ⟨b, mem, by rw [unit]; rfl⟩)
  rw [about_other mine other]
  exact bodies b mem x unit

end

section

variable {lib : Library} {s₀ : Session} {calls : List RecorderCall} {r r' : Registry}
  {t t' : Thread} {me : ThreadId} {s : Surroundings} {goal : ModuleId}

/-- When a body ends, the outcome of its module and what was heard of it fit together. -/
theorem Body.Departs.recounts {b : Body} {below : List Body} {control : Control} {r₁ : Registry}
    {result : Except LoadError Unit} {id : ModuleId}
    (departs : b.Departs r control r₁ result) (unit : b.unit = .module id)
    (h : Recounts lib s₀ calls r ⟨b :: below, control⟩)
    (sound : Sound lib (some goal) r ⟨b :: below, control⟩)
    (valid : Thread.Valid (some goal) ⟨b :: below, control⟩)
    (loading : r.cell? id = some (.loading me)) (once : id ∉ running below) :
    ∃ calls', Recounts lib s₀ calls' (r₁.publish id (b.outcome id result))
      ⟨below, .answer (b.outcome id result)⟩ := by
  have come := sound.bodies b List.mem_cons_self id unit
  have text : b.unit.text = id.text := by rw [unit]; rfl
  obtain ⟨heard, rest⟩ := List.forall_mem_cons.mp h.bodies
  have heard := heard id unit
  cases departs with
  | finish noPending noRest =>
    rw [noRest] at heard
    exact ⟨calls, h.recalls.publish (.finished come ⟨noPending, noRest⟩ heard), by simp, rest⟩
  | @raise form left e noPending next failed =>
    have mine : (RecorderCall.record id.text form.span).unit = id.text := rfl
    have recalls := h.recalls.record loading form.span
    rw [next] at heard
    have told := Tells.broken come (.raise noPending next failed) heard.form
    rw [← about_mine mine] at told
    rw [text]
    exact ⟨_, recalls.publish told, by simp, heard_below mine once rest⟩
  | @refuse e =>
    obtain ⟨q, more, pending⟩ := valid.control
    have cause : Verdict lib q (.error e) := sound.control q ⟨more, pending⟩
    have told := Tells.broken come (.refuse pending cause) heard
    rw [text]
    exact ⟨calls, h.recalls.publish told, by simp, rest⟩

/-- What a step of a thread that loads has to tell concerns a module that the thread is loading. -/
theorem Transition.recounts (moved : Transition s me r t r' t') (h : Recounts lib s₀ calls r t)
    (sound : Sound lib (some goal) r t) (valid : t.Valid (some goal))
    (coherent : (Crew.solo r me t).Coherent) (same : s.prepare = lib) (whole : s.broken = []) :
    ∃ calls', Recounts lib s₀ calls' r' t' := by
  have loading : ∀ id ∈ t.claims, r.cell? id = some (.loading me) := by
    intro id mem
    refine (coherent.owned me id).mpr ?_
    rwa [Crew.threads_solo]
  have once : t.claims.Nodup := by
    have := coherent.once me
    rwa [Crew.threads_solo] at this
  have noScript : ∀ {b : Body} {below : List Body} {name : String}, t.stack = b :: below →
      b.unit ≠ .script name := by
    intro b below name stack unit
    have nested := valid.nested
    rw [stack] at nested
    cases (nested.of_script unit).2
  cases moved with
  | claim foreign new =>
    refine ⟨calls, h.recalls.claim new, ?_, h.bodies⟩
    rintro id ⟨⟩
    exact h.recalls.silent _ new
  | @settle stack id o ready =>
    rw [same] at ready
    have told : Tells lib id (about id.text calls) o := by
      rw [h.unbuilt id rfl]
      exact .silent ready
    have noted : (s.noted r id).Recalls lib s₀ calls := by
      refine h.recalls.quiet (s.noted_quiet r id).1 ?_
      unfold Surroundings.noted
      split <;> rfl
    exact ⟨calls, noted.publish told, by simp, h.bodies⟩
  | @begin stack id source p ready =>
    have mine : (RecorderCall.instrument id.text .module source p.spans).unit = id.text := rfl
    have recalls := h.recalls.reported (loading id List.mem_cons_self) source p
    refine ⟨_, recalls, by simp, List.forall_mem_cons.mpr ⟨?_, ?_⟩⟩
    · rintro _ ⟨⟩
      rw [about_mine mine, h.unbuilt id rfl]
      rw [same] at ready
      exact .start ready
    · exact heard_below mine (List.nodup_cons.mp once).1 h.bodies
  | @perform b b' below form rest noPending next done =>
    obtain ⟨unit', _, left, _⟩ := Body.perform_spec noPending done
    cases unit : b.unit with
    | script name => exact absurd unit (noScript rfl)
    | module id =>
      rw [Thread.claims, Thread.running_cons_module unit] at once loading
      have mine : (RecorderCall.record id.text form.span).unit = id.text := rfl
      obtain ⟨heard, bodies⟩ := List.forall_mem_cons.mp h.bodies
      have recalls := h.recalls.record (loading id List.mem_cons_self) form.span
      refine ⟨_, recalls, by simp, List.forall_mem_cons.mpr ⟨?_, ?_⟩⟩
      · intro x named
        obtain rfl : id = x := by
          rw [unit', unit] at named
          cases named
          rfl
        have so_far := heard id unit
        rw [next] at so_far
        rw [about_mine mine, left]
        exact so_far.form
      · exact heard_below mine (List.nodup_cons.mp once).1 bodies
  | @leaveModule b below control r₁ result id unit departs =>
    rw [(departs.claims _).1, Thread.running_cons_module unit] at once loading
    exact departs.recounts unit h sound valid (loading id List.mem_cons_self)
      (List.nodup_cons.mp once).1
  | receive =>
    obtain ⟨heard, bodies⟩ := List.forall_mem_cons.mp h.bodies
    exact ⟨calls, h.recalls, by simp, List.forall_mem_cons.mpr ⟨heard, bodies⟩⟩
  | own | known | seen | enter | ask | tell => exact ⟨calls, h.recalls, by simp, h.bodies⟩
  -- What is left are scripts, and threads that wait or break off.
  | leaveScript unit => exact absurd unit (noScript rfl)
  | busy found => exact absurd found (coherent.not_loading rfl)
  | snap free broken => simp [whole] at broken
  | wait | wake | closed | abandonModule | abandonScript | unwound => exact sound.control.elim

end

theorem Registry.Rested.recalls_run {lib : Library} {s₀ : Session} {calls : List RecorderCall}
    {r : Registry} {s : Surroundings} {me : ThreadId} (rested : r.Rested) (same : s.prepare = lib)
    (whole : s.broken = []) (kept : ∀ id o, r.cell? id = some (.done o) → Verdict lib id o)
    (h : r.Recalls lib s₀ calls) (goal : ModuleId) (fuel : Nat) :
    ∃ calls', (runSteps s me fuel r (.load goal)).1.Recalls lib s₀ calls' := by
  let P (r : Registry) (t : Thread) : Prop :=
    (∃ calls, Recounts lib s₀ calls r t) ∧ Sound lib (some goal) r t ∧ t.Valid (some goal) ∧
      (Crew.solo r me t).Coherent
  have keeps : ∀ {r r' t t'}, Transition s me r t r' t' → P r t → P r' t' := by
    rintro r r' t t' moved ⟨⟨calls, recounts⟩, sound, valid, coherent⟩
    exact ⟨moved.recounts recounts sound valid coherent same whole,
      sound.step moved valid coherent same whole, moved.valid valid, coherent.move_solo moved⟩
  have begins : (Thread.load goal).Begins (some goal) := .load goal
  have start : P r (.load goal) :=
    ⟨⟨calls, h, by simp [Thread.load], by simp [Thread.load]⟩, begins.sound kept, begins.valid,
      begins.coherent rested me⟩
  obtain ⟨⟨calls', recounts⟩, _⟩ := runSteps_keeps (P := P) keeps fuel start
  exact ⟨calls', recounts.recalls⟩

/-- An operation that does nothing but load. -/
def Call.IsLoad : Call → Prop
  | .load _ | .loadPath _ | .loadWithin .. | .topLevel _ => True
  | _ => False

namespace Runtime

variable {chain : Chain} {lib : Library} {rt : Runtime} {files : FileTree} {s₀ : Session}
  {calls : List RecorderCall}

/-- A load is the run of one thread, unless its path is not one. -/
theorem load_runs (idle : rt.loader.Idle) (files : FileTree) {call : Call} (load : call.IsLoad) :
    (rt.call files call).1.loader.registry = rt.loader.registry ∨
      ∃ me fuel id, (rt.call files call).1.loader.registry =
        (runSteps (rt.loader.surroundings files) me fuel rt.loader.registry (.load id)).1 := by
  have main : ∀ id, (rt.loader.load files id).1.registry =
      (rt.loader.mainRun files (.load id)).1 := fun _ => rfl
  cases call with
  | load id | topLevel id => exact .inr ⟨_, _, id, main id⟩
  | loadWithin id milliseconds =>
    have after : (rt.call files (.loadWithin id milliseconds)).1.loader.registry =
        (rt.loader.spawnRun files id).1 := by
      change (rt.loader.spawn files id).1.registry = _
      rw [idle.spawn_eq]
    exact .inr ⟨_, _, id, after⟩
  | loadPath path =>
    rw [Runtime.call, Loader.loadPath]
    cases ModuleId.parse path with
    | error e => exact .inl rfl
    | ok id => exact .inr ⟨_, _, id, main id⟩
  | _ => exact load.elim

theorem recalls_call (h : rt.loader.Truthful chain lib)
    (holds : Surroundings.prepare ⟨files, chain, [], []⟩ = lib)
    (recalls : rt.loader.registry.Recalls lib s₀ calls) {call : Call} (load : call.IsLoad) :
    ∃ calls', (rt.call files call).1.loader.registry.Recalls lib s₀ calls' := by
  obtain same | ⟨me, fuel, id, run⟩ := load_runs h.idle files load
  · rw [same]
    exact ⟨calls, recalls⟩
  · rw [run]
    exact h.idle.rested.recalls_run (h.same holds) h.fixed.2 h.kept recalls id fuel

/-- Loads in a row, while the repositories hold the same. -/
theorem recalls_run {ops : List (FileTree × Call)} (steady : Steady chain files ops)
    (loads : ∀ op ∈ ops, op.2.IsLoad)
    (h : rt.loader.Truthful chain (Surroundings.prepare ⟨files, chain, [], []⟩))
    (recalls : rt.loader.registry.Recalls (Surroundings.prepare ⟨files, chain, [], []⟩) s₀ calls) :
    ∃ calls', (rt.run ops).loader.registry.Recalls
      (Surroundings.prepare ⟨files, chain, [], []⟩) s₀ calls' := by
  induction ops generalizing rt calls with
  | nil => exact ⟨calls, recalls⟩
  | cons op rest ih =>
    obtain ⟨first, later⟩ := List.forall_mem_cons.mp steady
    obtain ⟨load, loads⟩ := List.forall_mem_cons.mp loads
    have holds := steady.holds List.mem_cons_self
    obtain ⟨calls', now⟩ := recalls_call h holds recalls load
    exact ih later loads (call_truthful h holds first.1).1 now

theorem recalls_create (chain : Chain) (lib : Library) (s₀ : Session) (broken : List String) :
    (create chain (.session s₀) broken).loader.registry.Recalls lib s₀ [] :=
  ⟨rfl, fun _ mem => by simp at mem, fun _ _ => rfl, fun _ _ done => by cases done⟩

end Runtime
end ModuleSystem
