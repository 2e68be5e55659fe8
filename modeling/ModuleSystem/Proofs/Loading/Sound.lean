import ModuleSystem.Proofs.Loading.Solo
import ModuleSystem.Proofs.Loading.Verdict

/-! What a lone thread keeps in the cells and answers is what may be told of the module by itself,
whatever was loaded before and whatever is loading below. So no module is spoilt by the failure of
another one that it does not come to require. -/

namespace ModuleSystem

open Relation (ReflTransGen)
open Thread (running)

/-- A lone thread never waits, and nothing breaks off. -/
def Control.Sound (lib : Library) (goal : Option ModuleId) (stack : List Body) : Control → Prop
  | .answer o => ∀ id, Asks goal id stack → Verdict lib id o
  | .ended (.loaded o) => ∀ id, goal = some id → Verdict lib id o
  | .park _ | .waiting _ | .unwind | .ended (.broken _) => False
  | _ => True

/-- What a lone thread keeps and runs is true of the modules by themselves. -/
structure Sound (lib : Library) (goal : Option ModuleId) (r : Registry) (t : Thread) : Prop where
  kept : ∀ id o, r.cell? id = some (.done o) → Verdict lib id o
  bodies : ∀ b ∈ t.stack, ∀ id, b.unit = .module id → Comes lib id (.running b)
  control : t.control.Sound lib goal t.stack

section

variable {lib : Library} {goal : Option ModuleId} {id q : ModuleId} {o : Outcome} {b b' : Body}
  {below stack : List Body} {more : List ModuleId}

theorem Asks.unique (h : Asks goal id stack) (h' : Asks goal q stack) : id = q := by
  cases stack with
  | nil => exact Option.some.inj (h.symm.trans h')
  | cons b below =>
    obtain ⟨more, pending⟩ := h
    obtain ⟨more', pending'⟩ := h'
    exact (List.cons.inj (pending.symm.trans pending')).1

theorem Verdict.settles_of_ok {m : ModuleInstance} (h : Verdict lib id (.ok m)) :
    Settles lib id (.ok m) := by
  cases h with
  | settled settles => exact settles

/-- A module that requires a failed one fails for the same cause. -/
theorem Verdict.refuse {e : LoadError} (come : Comes lib id (.running b))
    (pending : b.pending = q :: more) (h : Verdict lib q (.error e)) :
    Verdict lib id (.error (e.inUnit id.text)) := by
  cases h with
  | settled settles =>
    exact .settled (.advance come (.refuse pending settles) fun _ _ known => known)
  | looped reach ring => exact .looped (reach.head ⟨b, more, come, pending⟩) ring

/-- What is told when a body ends, if its module may be told the answer that ends it. -/
theorem Body.Departs.verdict {control : Control} {r r₁ : Registry} {result : Except LoadError Unit}
    (departs : b.Departs r control r₁ result) (unit : b.unit = .module id)
    (come : Comes lib id (.running b))
    (answered : ∀ e, control = .answer (.error e) →
      ∃ q more, b.pending = q :: more ∧ Verdict lib q (.error e)) :
    Verdict lib id (b.outcome id result) := by
  cases departs with
  | finish noPending noRest =>
    exact .settled (.advance come (.finish noPending noRest) fun _ _ known => known)
  | raise noPending next failed =>
    exact .settled (.advance come (.raise noPending next failed) fun _ _ known => known)
  | refuse =>
    obtain ⟨q, more, pending, verdict⟩ := answered _ rfl
    rw [unit]
    exact verdict.refuse come pending

/-- A module that is asked for while it runs closes a ring with those that run above it. -/
theorem Nested.ring {R : ModuleId → ModuleId → Prop} (control : Control)
    (nested : Nested goal stack) (awaits : Awaits R stack) (asks : Asks goal id stack)
    (mem : id ∈ running stack) (once : (running stack).Nodup) :
    ∃ more, Thread.modulesFrom ⟨stack, control⟩ id = id :: more ∧ Ring R id more := by
  obtain ⟨more, own, suffix, linked⟩ := nested.linkedFrom control awaits asks mem
  exact ⟨more, own, (List.nodup_reverse.mpr once).sublist suffix.sublist, linked⟩

end

namespace Sound

variable {lib : Library} {goal : Option ModuleId} {r r' : Registry} {t t' : Thread}
  {s : Surroundings} {me : ThreadId}

theorem awaits (h : Sound lib goal r t) : Awaits (Leans lib) t.stack := by
  intro b mem id unit q more pending
  exact ⟨b, more, h.bodies b mem id unit, pending⟩

theorem bodies_step (h : Sound lib goal r t) (moved : Transition s me r t r' t')
    (valid : t.Valid goal) (same : s.prepare = lib) :
    ∀ b ∈ t'.stack, ∀ id, b.unit = .module id → Comes lib id (.running b) := by
  cases moved with
  | begin ready =>
    refine List.forall_mem_cons.mpr ⟨?_, h.bodies⟩
    rintro _ ⟨⟩
    rw [same] at ready
    exact .start ready
  | perform noPending next done =>
    obtain ⟨come, rest⟩ := List.forall_mem_cons.mp h.bodies
    refine List.forall_mem_cons.mpr ⟨fun id unit => ?_, rest⟩
    rw [(Body.perform_spec noPending done).1] at unit
    exact .advance (come id unit) (.perform noPending next done) fun _ _ known => known
  | receive =>
    obtain ⟨come, rest⟩ := List.forall_mem_cons.mp h.bodies
    refine List.forall_mem_cons.mpr ⟨fun id unit => ?_, rest⟩
    obtain ⟨q, more, pending⟩ := valid.control
    have settles := (h.control q ⟨more, pending⟩).settles_of_ok
    exact .advance (come id unit) (.receive pending settles) fun _ _ known => known
  | leaveModule | abandonModule => exact (List.forall_mem_cons.mp h.bodies).2
  | leaveScript | abandonScript | tell | unwound =>
    intro b none
    cases none
  | _ => exact h.bodies

theorem control_step (h : Sound lib goal r t) (moved : Transition s me r t r' t')
    (valid : t.Valid goal) (coherent : (Crew.solo r me t).Coherent) (same : s.prepare = lib)
    (whole : s.broken = []) : t'.control.Sound lib goal t'.stack := by
  cases moved with
  | @own stack id mine =>
    intro q asks
    obtain rfl : id = q := Asks.unique valid.control asks
    have once : (running stack).Nodup := by
      have := coherent.once me
      rwa [Crew.threads_solo] at this
    obtain ⟨more, chain, ring⟩ :=
      valid.nested.ring (.request id) h.awaits valid.control mine once
    rw [chain]
    exact .looped .refl ring
  | seen found =>
    intro q asks
    rw [← Asks.unique valid.control asks]
    exact h.kept _ _ found
  | busy found => exact coherent.not_loading rfl found
  | closed | wait | wake => exact h.control.elim
  | settle ready =>
    intro q asks
    rw [← Asks.unique valid.control asks]
    rw [same] at ready
    exact .settled (.found ready)
  | snap free broken => simp [whole] at broken
  | leaveModule unit departs =>
    intro q asks
    obtain ⟨asked, _⟩ := valid.nested.of_module unit
    rw [← Asks.unique asked asks]
    refine departs.verdict unit (h.bodies _ List.mem_cons_self _ unit) ?_
    rintro e rfl
    obtain ⟨q, more, pending⟩ := valid.control
    exact ⟨q, more, pending, h.control q ⟨more, pending⟩⟩
  | tell => exact h.control
  | abandonModule | abandonScript | unwound => exact h.control.elim
  | _ => trivial

theorem step (h : Sound lib goal r t) (moved : Transition s me r t r' t')
    (valid : t.Valid goal) (coherent : (Crew.solo r me t).Coherent) (same : s.prepare = lib)
    (whole : s.broken = []) : Sound lib goal r' t' := by
  have control := h.control_step moved valid coherent same whole
  refine ⟨fun id o found => ?_, h.bodies_step moved valid same, control⟩
  obtain old | ⟨answer, asks⟩ | ⟨unwinds, _⟩ := moved.published valid found
  · exact h.kept id o old
  · rw [answer] at control
    exact control id asks
  · rw [unwinds] at control
    exact control.elim

end Sound

theorem Thread.Begins.sound {lib : Library} {goal : Option ModuleId} {r : Registry} {t : Thread}
    (begins : t.Begins goal) (kept : ∀ id o, r.cell? id = some (.done o) → Verdict lib id o) :
    Sound lib goal r t := by
  cases begins with
  | load id => exact ⟨kept, by simp [Thread.load], trivial⟩
  | script unit noPending =>
    refine ⟨kept, ?_, trivial⟩
    intro b mem id module
    rw [List.mem_singleton.mp mem, unit] at module
    cases module

theorem Registry.Rested.sound_run {lib : Library} {goal : Option ModuleId} {r : Registry}
    {t : Thread} {s : Surroundings} {me : ThreadId} (rested : r.Rested) (begins : t.Begins goal)
    (same : s.prepare = lib) (whole : s.broken = [])
    (kept : ∀ id o, r.cell? id = some (.done o) → Verdict lib id o) (fuel : Nat) :
    Sound lib goal (runSteps s me fuel r t).1 (runSteps s me fuel r t).2 := by
  let P (r : Registry) (t : Thread) : Prop :=
    Sound lib goal r t ∧ t.Valid goal ∧ (Crew.solo r me t).Coherent
  have keeps : ∀ {r r' t t'}, Transition s me r t r' t' → P r t → P r' t' := by
    rintro r r' t t' moved ⟨sound, valid, coherent⟩
    exact ⟨sound.step moved valid coherent same whole, moved.valid valid,
      coherent.move_solo moved⟩
  have start : P r t := ⟨begins.sound kept, begins.valid, begins.coherent rested me⟩
  exact (runSteps_keeps (P := P) keeps fuel start).1

end ModuleSystem
