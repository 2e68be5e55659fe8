import ModuleSystem.Proofs.Loading.Failures
import ModuleSystem.Proofs.Loading.Sound

/-! A lone thread is told of a cycle when it asks for a module that is running. The failure then
goes down the stack as it is: every body that is left keeps it, so that in the end all modules of
the chain have failed with it, and so has everyone who waited for them. -/

namespace ModuleSystem

open Relation (ReflTransGen)
open Thread (running)

theorem LoadError.isCycle_inUnit (unit : String) (e : LoadError) :
    (e.inUnit unit).isCycle = e.isCycle := by
  unfold isCycle
  rw [rootCause_inUnit]

theorem LoadError.inUnit_of_isCycle {e : LoadError} (unit : String) (h : e.isCycle = true) :
    e.inUnit unit = e := if_pos h

theorem Surroundings.prepare_isCycle {s : Surroundings} {id : ModuleId} {e : LoadError}
    (h : s.prepare id = .outcome (.error e)) : e.isCycle = false := by
  obtain ⟨_, rfl⟩ | rfl | ⟨_, _, rfl⟩ := prepare_error h <;> rfl

namespace Body

variable {b : Body}

theorem perform_isCycle {form : Form.Located} {e : LoadError} (h : b.perform form = .error e) :
    e.isCycle = false := by
  obtain ⟨_, rfl⟩ := perform_error h
  rfl

theorem sealed_isCycle {id : ModuleId} {e : LoadError} (h : b.sealed id = .error e) :
    e.isCycle = false := by
  obtain ⟨_, rfl⟩ := sealed_error h
  rfl

/-- Only an answer brings a body to fail with a cycle. -/
theorem Departs.of_isCycle {control : Control} {r r₁ : Registry} {result : Except LoadError Unit}
    (departs : b.Departs r control r₁ result) {e : LoadError} (failed : result = .error e)
    (cycle : e.isCycle = true) : control = .answer (.error e) := by
  cases departs with
  | finish => cases failed
  | raise _ _ raised =>
    cases failed
    rw [perform_isCycle raised] at cycle
    cases cycle
  | @refuse cause =>
    cases failed
    rw [LoadError.isCycle_inUnit] at cycle
    rw [LoadError.inUnit_of_isCycle _ cycle]

theorem Departs.outcome_cycle {control : Control} {r r₁ : Registry}
    {result : Except LoadError Unit} (departs : b.Departs r control r₁ result) {id : ModuleId}
    {path : List ModuleId} (failed : b.outcome id result = .error (.cycle path)) :
    control = .answer (.error (.cycle path)) := by
  cases result with
  | error e =>
    cases failed
    exact departs.of_isCycle rfl rfl
  | ok _ =>
    have whole := sealed_isCycle failed
    cases whole

end Body

section

variable {lib : Library} {id : ModuleId} {x : Moment}

/-- A module that comes to an outcome by itself does not fail with a cycle. -/
theorem Comes.not_cycle (plain : ∀ id e, lib id = .outcome (.error e) → e.isCycle = false)
    (h : Comes lib id x) : ∀ e, x = .done (.error e) → e.isCycle = false := by
  induction h with
  | found ready =>
    rintro e ⟨⟩
    exact plain _ e ready
  | start => simp
  | advance come step sound ih known_plain =>
    rintro e rfl
    generalize done : Moment.done (.error e) = y at step
    cases step with
    | perform | receive => cases done
    | finish =>
      injection done with failed
      exact Body.sealed_isCycle failed.symm
    | raise _ _ failed =>
      cases done
      exact Body.perform_isCycle failed
    | refuse _ got =>
      cases done
      rw [LoadError.isCycle_inUnit]
      exact known_plain _ _ got _ rfl

/-- A failure for a cycle stands as it is, and names a ring that the module leads to. -/
theorem Verdict.of_isCycle (plain : ∀ id e, lib id = .outcome (.error e) → e.isCycle = false)
    {e : LoadError} (h : Verdict lib id (.error e)) (cycle : e.isCycle = true) :
    ∃ first more, e = .cycle (first :: more ++ [first]) ∧ ReflTransGen (Leans lib) id first ∧
      Ring (Leans lib) first more := by
  cases h with
  | settled settles =>
    rw [Comes.not_cycle plain settles e rfl] at cycle
    cases cycle
  | looped reach ring => exact ⟨_, _, rfl, reach, ring⟩

/-- A body wants no more than its program requires. -/
theorem Comes.wants (h : Comes lib id x) : ∀ b, x = .running b →
    ∃ source p, lib id = .program source p ∧ ∀ q ∈ b.wants, q ∈ Form.Program.required p := by
  induction h with
  | found => simp
  | start ready =>
    rintro b ⟨⟩
    exact ⟨_, _, ready, fun q mem => mem⟩
  | advance come step sound ih =>
    rintro b rfl
    cases step with
    | perform noPending next done =>
      obtain ⟨source, p, ready, wants⟩ := ih _ rfl
      rw [← Body.wants_perform noPending next done] at wants
      exact ⟨source, p, ready, wants⟩
    | @receive b _ _ m _ _ =>
      obtain ⟨source, p, ready, wants⟩ := ih _ rfl
      exact ⟨source, p, ready, fun q mem => wants q (b.wants_receive m q mem)⟩

end

/-- The modules that a source requires, whether or not it ever comes to that. -/
def Prepared.required : Prepared → List ModuleId
  | .program _ p => Form.Program.required p
  | .outcome _ => []

theorem requires_iff {files : FileTree} {chain : Chain} {a b : ModuleId} :
    Requires files chain a b ↔ b ∈ (Surroundings.prepare ⟨files, chain, [], []⟩ a).required := by
  constructor
  · rintro ⟨source, p, ready, mem⟩
    rwa [ready]
  · intro mem
    cases ready : Surroundings.prepare ⟨files, chain, [], []⟩ a with
    | program source p =>
      rw [ready] at mem
      exact ⟨source, p, ready, mem⟩
    | outcome o =>
      rw [ready] at mem
      cases mem

/-- What a module comes to require, its source requires. -/
theorem Leans.requires {files : FileTree} {chain : Chain} {a b : ModuleId}
    (h : Leans (Surroundings.prepare ⟨files, chain, [], []⟩) a b) : Requires files chain a b := by
  obtain ⟨body, more, come, pending⟩ := h
  obtain ⟨source, p, ready, wants⟩ := come.wants body rfl
  exact ⟨source, p, ready, wants b (by simp [Body.wants, pending])⟩

/-- The module has failed with the cycle that is told as `path`. -/
def Registry.FailsOn (r : Registry) (path : List ModuleId) (id : ModuleId) : Prop :=
  r.cell? id = some (.done (.error (.cycle path)))

/-- A failure that is told: if it is for a cycle, it is kept for a module as well. -/
def LoadError.Kept (r : Registry) (e : LoadError) : Prop :=
  e.isCycle = true → ∃ path id, e = .cycle path ∧ r.FailsOn path id

/-- Who has failed with a chain. While the thread is being told of it, the modules of the chain that
have not failed yet are those that run, and the innermost one is in the chain or waits for one that
has failed. -/
structure Blamed (lib : Library) (goal : Option ModuleId) (r : Registry) (t : Thread) : Prop where
  members : ∀ path id, r.FailsOn path id → ∀ m ∈ path,
    r.FailsOn path m ∨ t.control = .answer (.error (.cycle path)) ∧ m ∈ running t.stack
  cause : ∀ path id, r.FailsOn path id → id ∈ path ∨ ∃ q, Leans lib id q ∧ r.FailsOn path q
  told : ∀ path, t.control = .answer (.error (.cycle path)) →
    (∀ m ∈ path, r.FailsOn path m ∨ m ∈ running t.stack) ∧
      ∀ q, Asks goal q t.stack → r.FailsOn path q ∨
        ∃ id ∈ path, (running t.stack).head? = some id
  ended : ∀ ending, t.control = .ended ending → ∀ e, ending.error? = some e → e.Kept r

namespace Blamed

variable {lib : Library} {goal : Option ModuleId} {r r' : Registry} {t t' : Thread}
  {s : Surroundings} {me : ThreadId}

/-- A step that publishes no cycle. Those who were to be told are told of nothing, if the thread
stops telling. -/
theorem unblamed (h : Blamed lib goal r t)
    (grows : ∀ path id, r.FailsOn path id → r'.FailsOn path id)
    (back : ∀ path id, r'.FailsOn path id → r.FailsOn path id)
    (silent : ∀ path, t.control = .answer (.error (.cycle path)) → running t.stack = [])
    (told : ∀ path, t'.control = .answer (.error (.cycle path)) →
      (∀ m ∈ path, r'.FailsOn path m ∨ m ∈ running t'.stack) ∧
        ∀ q, Asks goal q t'.stack → r'.FailsOn path q ∨
          ∃ id ∈ path, (running t'.stack).head? = some id)
    (ended : ∀ ending, t'.control = .ended ending → ∀ e, ending.error? = some e → e.Kept r') :
    Blamed lib goal r' t' := by
  refine ⟨fun path id fails m mem => ?_, fun path id fails => ?_, told, ended⟩
  · obtain failed | ⟨telling, runs⟩ := h.members path id (back path id fails) m mem
    · exact .inl (grows path m failed)
    · rw [silent path telling] at runs
      cases runs
  · obtain inside | ⟨q, leans, failed⟩ := h.cause path id (back path id fails)
    · exact .inl inside
    · exact .inr ⟨q, leans, grows path q failed⟩

/-- A request for a module that is running: the whole chain runs, the innermost module included. -/
theorem told_own {stack : List Body} {id : ModuleId} (control : Control)
    (mine : id ∈ running stack) :
    (∀ m ∈ Thread.modulesFrom ⟨stack, control⟩ id ++ [id], m ∈ running stack) ∧
      ∃ last ∈ Thread.modulesFrom ⟨stack, control⟩ id ++ [id],
        (running stack).head? = some last := by
  obtain ⟨rest, own, suffix⟩ := Thread.modulesFrom_spec (t := ⟨stack, control⟩) mine
  rw [own]
  constructor
  · intro m mem
    obtain above | last := List.mem_append.mp mem
    · exact List.mem_reverse.mp (suffix.subset above)
    · rw [List.mem_singleton.mp last]
      exact mine
  · obtain ⟨before, split⟩ := suffix
    have innermost : (running stack).head? = (id :: rest).getLast? := by
      rw [← List.getLast?_reverse, ← split,
        List.getLast?_append_of_ne_nil before (List.cons_ne_nil id rest)]
    rw [List.getLast?_eq_some_getLast (List.cons_ne_nil id rest)] at innermost
    exact ⟨_, List.mem_append_left _ (List.getLast_mem _), innermost⟩

/-- The innermost body is told of a cycle and leaves: its module fails, and whoever waits for the
module is told in turn. -/
theorem leave (h : Blamed lib goal r t) (valid : t.Valid goal)
    (bodies : ∀ b ∈ t.stack, ∀ id, b.unit = .module id → Comes lib id (.running b))
    (grows : ∀ path id, r.FailsOn path id → r'.FailsOn path id) {b : Body} {below : List Body}
    {id : ModuleId} {o : Outcome} (stack : t.stack = b :: below) (unit : b.unit = .module id)
    (telling : ∀ path, o = .error (.cycle path) ↔ t.control = .answer (.error (.cycle path)))
    (published : r'.cell? id = some (.done o))
    (fresh : ∀ path k, r'.FailsOn path k → r.FailsOn path k ∨ k = id) :
    Blamed lib goal r' ⟨below, .answer o⟩ := by
  obtain ⟨control, here⟩ : ∃ control, t = ⟨b :: below, control⟩ := ⟨t.control, by rw [← stack]⟩
  subst here
  have inside : running (b :: below) = id :: running below :=
    Thread.running_cons_module unit below
  have same : ∀ path, r'.FailsOn path id → o = .error (.cycle path) := by
    intro path fails
    have done := published.symm.trans fails
    cases done
    rfl
  have left : ∀ path, o = .error (.cycle path) → ∀ m ∈ path,
      r'.FailsOn path m ∨ m ∈ running below := by
    intro path cycle m mem
    obtain failed | runs := (h.told path ((telling path).mp cycle)).1 m mem
    · exact .inl (grows path m failed)
    · rw [inside] at runs
      obtain rfl | runs := List.mem_cons.mp runs
      · left
        rw [Registry.FailsOn, published, cycle]
      · exact .inr runs
  refine ⟨fun path k fails m mem => ?_, fun path k fails => ?_, fun path here => ?_, ?_⟩
  · obtain old | rfl := fresh path k fails
    · obtain failed | ⟨told, runs⟩ := h.members path k old m mem
      · exact .inl (grows path m failed)
      · have cycle := (telling path).mpr told
        exact (left path cycle m mem).imp_right fun runs => ⟨by rw [cycle], runs⟩
    · have cycle := same path fails
      exact (left path cycle m mem).imp_right fun runs => ⟨by rw [cycle], runs⟩
  · obtain old | rfl := fresh path k fails
    · obtain inside | ⟨q, leans, failed⟩ := h.cause path k old
      · exact .inl inside
      · exact .inr ⟨q, leans, grows path q failed⟩
    · have told := (telling path).mp (same path fails)
      have asks : ∃ q, Asks goal q (b :: below) := by
        have fits := valid.control
        rw [told] at fits
        exact fits
      obtain ⟨q, more, pending⟩ := asks
      obtain failed | ⟨last, mem, first⟩ := (h.told path told).2 q ⟨more, pending⟩
      · right
        exact ⟨q, ⟨b, more, bodies b List.mem_cons_self k unit, pending⟩, grows path q failed⟩
      · left
        rw [inside, List.head?_cons, Option.some.injEq] at first
        rwa [first]
  · injection here with cycle
    refine ⟨left path cycle, fun q asks => .inl ?_⟩
    obtain ⟨asked, _⟩ := valid.nested.of_module unit
    rw [← Asks.unique asked asks, Registry.FailsOn, published, cycle]
  · intro e none
    cases none

theorem step (h : Blamed lib goal r t) (moved : Transition s me r t r' t')
    (sound : Sound lib goal r t) (valid : t.Valid goal) (coherent : (Crew.solo r me t).Coherent)
    (same : s.prepare = lib) (whole : s.broken = []) : Blamed lib goal r' t' := by
  have grows : ∀ path id, r.FailsOn path id → r'.FailsOn path id :=
    fun path id fails => coherent.done_solo moved fails
  -- What is published goes on as an answer, so where no cycle is answered none was published.
  have back : (∀ path, t'.control ≠ .answer (.error (.cycle path))) →
      ∀ path id, r'.FailsOn path id → r.FailsOn path id := by
    intro silent path id fails
    obtain old | ⟨answer, _⟩ | ⟨_, broken⟩ := moved.published valid fails
    · exact old
    · exact absurd answer (silent path)
    · cases broken
  have plain : ∀ id e, lib id = .outcome (.error e) → e.isCycle = false := by
    intro id e ready
    rw [← same] at ready
    exact Surroundings.prepare_isCycle ready
  cases moved with
  | @own stack id mine =>
    obtain ⟨runs, innermost⟩ := told_own (.request id) mine
    refine h.unblamed grows (fun _ _ fails => fails) (fun path none => by cases none)
      (fun path told => ?_) (fun e none => by cases none)
    cases told
    exact ⟨fun m mem => .inr (runs m mem), fun _ _ => .inr innermost⟩
  | @seen stack id o found =>
    refine h.unblamed grows (fun _ _ fails => fails) (fun path none => by cases none)
      (fun path told => ?_) (fun e none => by cases none)
    cases told
    refine ⟨fun m mem => ?_, fun q asks => .inl ?_⟩
    · obtain failed | ⟨none, _⟩ := h.members path id found m mem
      · exact .inl failed
      · cases none
    · rwa [← Asks.unique valid.control asks]
  | @settle stack id o ready =>
    have silent : ∀ path, Control.answer o ≠ .answer (.error (.cycle path)) := by
      rintro path ⟨⟩
      have plain := Surroundings.prepare_isCycle ready
      cases plain
    exact h.unblamed grows (back silent) (fun path none => by cases none)
      (fun path told => absurd told (silent path)) (fun e none => by cases none)
  | @leaveModule b below control r₁ result id unit departs =>
    have mine : r.cell? id = some (.loading me) := by
      refine (coherent.owned me id).mpr ?_
      rw [Crew.threads_solo, (departs.claims (b :: below)).1, Thread.running_cons_module unit]
      exact List.mem_cons_self
    refine h.leave valid sound.bodies grows rfl unit (fun path => ?_) ?_ (fun path k fails => ?_)
    · constructor
      · exact departs.outcome_cycle
      · rintro rfl
        cases departs
        rfl
    · rw [Registry.cell?_publish, if_pos rfl, Registry.cell?_congr departs.quiet.1, mine]
      rfl
    · exact (Registry.done_of_publish departs.quiet.1 fails).imp_right And.left
  | @leaveScript b below control r₁ result name unit departs =>
    have bottom : below = [] := (valid.nested.of_script unit).1
    subst bottom
    have nobody : running [b] = [] := Thread.running_cons_script unit []
    refine h.unblamed grows (back fun path none => by cases none) (fun _ _ => nobody)
      (fun path none => by cases none) ?_
    rintro _ ⟨⟩ e failed cycle
    obtain rfl : result = .error e := by
      cases result with
      | error cause =>
        cases failed
        rfl
      | ok _ => cases failed
    have told := departs.of_isCycle rfl cycle
    subst told
    obtain ⟨q, asks⟩ := valid.control
    obtain ⟨first, more, rfl, _⟩ := (sound.control q asks).of_isCycle plain cycle
    obtain failed | ⟨_, _, none⟩ := (h.told _ rfl).2 q asks
    · exact ⟨_, q, rfl, grows _ q failed⟩
    · rw [nobody] at none
      cases none
  | @tell o =>
    refine h.unblamed grows (fun _ _ fails => fails) (fun _ _ => rfl)
      (fun path none => by cases none) ?_
    rintro _ ⟨⟩ e failed cycle
    obtain rfl : o = .error e := by
      cases o with
      | error cause =>
        cases failed
        rfl
      | ok _ => cases failed
    obtain ⟨q, asks⟩ := valid.control
    obtain ⟨first, more, rfl, _⟩ := (sound.control q asks).of_isCycle plain cycle
    obtain failed | ⟨_, _, none⟩ := (h.told _ rfl).2 q asks
    · exact ⟨_, q, rfl, failed⟩
    · cases none
  | abandonScript | unwound | abandonModule | closed | wait | wake => exact sound.control.elim
  | snap free broken => simp [whole] at broken
  | _ =>
    exact h.unblamed grows (back fun path none => by cases none) (fun path none => by cases none)
      (fun path none => by cases none) (fun e none => by cases none)

end Blamed

/-- Everything that was claimed is a root that was claimed, or such a root leads to it. -/
def Registry.GrownFrom (R : ModuleId → ModuleId → Prop) (roots : List ModuleId) (r : Registry) :
    Prop :=
  ∀ id ∈ r.claimed, ∃ root ∈ roots, root ∈ r.claimed ∧ ReflTransGen R root id

/-- A thread that asks for roots only, by itself or for a script. -/
structure Rooted (R : ModuleId → ModuleId → Prop) (roots : List ModuleId) (goal : Option ModuleId)
    (r : Registry) (t : Thread) : Prop where
  grown : r.GrownFrom R roots
  sourced : Sourced R t.stack
  scripts : ∀ b ∈ t.stack, ∀ name, b.unit = .script name → ∀ q ∈ b.wants, q ∈ roots
  goal : ∀ id, goal = some id → id ∈ roots

/-- A module that is claimed after a step was claimed before it, or the thread has asked for it. -/
theorem Transition.claimed {s : Surroundings} {me : ThreadId} {r r' : Registry} {t t' : Thread}
    (moved : Transition s me r t r' t') :
    r'.claimed = r.claimed ∨ ∃ id, t.control = .request id ∧ r'.claimed = r.claimed ++ [id] := by
  cases moved with
  | @claim stack id foreign new => exact .inr ⟨id, rfl, Registry.claimed_claim r id me⟩
  | settle =>
    left
    rw [Registry.claimed_publish, Registry.claimed_congr (s.noted_quiet _ _).1]
  | leaveModule unit departs =>
    left
    rw [Registry.claimed_publish, Registry.claimed_congr departs.quiet.1]
  | leaveScript unit departs => exact .inl (Registry.claimed_congr departs.quiet.1)
  | abandonModule => exact .inl (Registry.claimed_publish _ _ _)
  | _ => exact .inl rfl

/-- What scripts have yet to require are roots. -/
theorem Transition.scripts {roots : List ModuleId} {s : Surroundings} {me : ThreadId}
    {r r' : Registry} {t t' : Thread} (moved : Transition s me r t r' t')
    (scripts : ∀ b ∈ t.stack, ∀ name, b.unit = .script name → ∀ q ∈ b.wants, q ∈ roots) :
    ∀ b ∈ t'.stack, ∀ name, b.unit = .script name → ∀ q ∈ b.wants, q ∈ roots := by
  cases moved with
  | begin =>
    refine List.forall_mem_cons.mpr ⟨?_, scripts⟩
    rintro name ⟨⟩
  | perform noPending next done =>
    obtain ⟨first, rest⟩ := List.forall_mem_cons.mp scripts
    refine List.forall_mem_cons.mpr ⟨fun name unit => ?_, rest⟩
    rw [(Body.perform_spec noPending done).1] at unit
    rw [Body.wants_perform noPending next done]
    exact first name unit
  | @receive b below m =>
    obtain ⟨first, rest⟩ := List.forall_mem_cons.mp scripts
    refine List.forall_mem_cons.mpr ⟨fun name unit q mem => ?_, rest⟩
    exact first name unit q (b.wants_receive m q mem)
  | leaveModule | abandonModule => exact (List.forall_mem_cons.mp scripts).2
  | leaveScript | abandonScript | tell | unwound =>
    intro b none
    cases none
  | _ => exact scripts

theorem Rooted.step {R : ModuleId → ModuleId → Prop} {roots : List ModuleId}
    {goal : Option ModuleId} {s : Surroundings} {me : ThreadId} {r r' : Registry} {t t' : Thread}
    (h : Rooted R roots goal r t) (moved : Transition s me r t r' t') (valid : t.Valid goal)
    (coherent : (Crew.solo r me t).Coherent)
    (sources : ∀ id source p, s.prepare id = .program source p →
      ∀ q ∈ Form.Program.required p, R id q) : Rooted R roots goal r' t' := by
  refine ⟨?_, moved.sourced sources h.sourced, moved.scripts h.scripts, h.goal⟩
  obtain same | ⟨id, asks, more⟩ := moved.claimed
  · unfold Registry.GrownFrom
    rw [same]
    exact h.grown
  · have fits := valid.control
    rw [asks] at fits
    -- The new module is a root itself, or the module that asks for it has grown from one.
    have origin : id ∈ roots ∨ ∃ k ∈ r.claimed, R k id := by
      obtain ⟨stack, control⟩ := t
      cases stack with
      | nil => exact .inl (h.goal id fits)
      | cons b below =>
        obtain ⟨later, pending⟩ := fits
        have wanted : id ∈ b.wants := by simp [Body.wants, pending]
        cases unit : b.unit with
        | script name => exact .inl (h.scripts b List.mem_cons_self name unit id wanted)
        | module k =>
          right
          refine ⟨k, ?_, h.sourced b List.mem_cons_self k unit id wanted⟩
          refine Registry.mem_claimed_iff.mpr ⟨_, (coherent.owned me k).mpr ?_⟩
          obtain rfl : control = .request id := asks
          rw [Crew.threads_solo, Thread.claims, Thread.running_cons_module unit]
          exact List.mem_cons_self
    unfold Registry.GrownFrom
    rw [more]
    intro x mem
    obtain old | new := List.mem_append.mp mem
    · obtain ⟨root, inside, claimed, reach⟩ := h.grown x old
      exact ⟨root, inside, List.mem_append_left _ claimed, reach⟩
    · rw [List.mem_singleton.mp new]
      obtain inside | ⟨k, claimed, edge⟩ := origin
      · exact ⟨id, inside, List.mem_append_right _ (List.mem_singleton_self id), .refl⟩
      · obtain ⟨root, inside, before, reach⟩ := h.grown k claimed
        exact ⟨root, inside, List.mem_append_left _ before, reach.tail edge⟩

end ModuleSystem
