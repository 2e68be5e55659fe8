import ModuleSystem.Proofs.Loading.Budget
import ModuleSystem.Proofs.Loading.Deadlock

namespace ModuleSystem

open Thread (running)

/-- Between operations: every module that was claimed has its outcome, and no wait is entered. -/
structure Registry.Rested (r : Registry) : Prop where
  done : ∀ id owner, r.cell? id ≠ some (.loading owner)
  free : ∀ me, r.waiting? me = none
  keys : r.claimed.Nodup

theorem Registry.Rested.congr {r r' : Registry} (h : r.Rested) (cells : r'.cells = r.cells)
    (waits : r'.waits = r.waits) : r'.Rested := by
  refine ⟨fun id owner => ?_, fun me => ?_, ?_⟩
  · rw [cell?_congr cells]
    exact h.done id owner
  · rw [waiting?_congr waits]
    exact h.free me
  · rw [claimed_congr cells]
    exact h.keys

namespace Crew

/-- Only the thread `me` has something to do. -/
def solo (r : Registry) (me : ThreadId) (t : Thread) : Crew :=
  ⟨r, fun x => if x = me then t else .idle⟩

@[simp] theorem threads_solo (r : Registry) (me : ThreadId) (t : Thread) :
    (solo r me t).threads me = t := if_pos rfl

theorem threads_solo_ne {r : Registry} {me x : ThreadId} {t : Thread} (h : x ≠ me) :
    (solo r me t).threads x = .idle := if_neg h

@[simp] theorem registry_solo (r : Registry) (me : ThreadId) (t : Thread) :
    (solo r me t).registry = r := rfl

theorem put_solo (r r' : Registry) (me : ThreadId) (t t' : Thread) :
    (solo r me t).put me r' t' = solo r' me t' := by
  unfold put solo
  congr 1
  funext x
  dsimp only
  split <;> rfl

theorem coherent_idle {r : Registry} (rested : r.Rested) (me : ThreadId) :
    (solo r me .idle).Coherent := by
  have idle : ∀ x, (solo r me .idle).threads x = .idle := by
    intro x
    unfold solo
    dsimp only
    split <;> rfl
  refine ⟨fun x => ?_, fun x id => ?_, fun x => ?_, fun x => ?_, fun x id sees => ?_, rested.keys⟩
  · rw [idle]
    exact ⟨none, trivial, rfl, trivial⟩
  · rw [idle]
    exact ⟨fun loading => absurd loading (rested.done id x), fun none => by cases none⟩
  · rw [idle]
    exact List.nodup_nil
  · rw [idle]
    exact rested.free x
  · rw [idle] at sees
    cases sees

theorem Coherent.move_solo {r r' : Registry} {me : ThreadId} {t t' : Thread} {s : Surroundings}
    (h : (solo r me t).Coherent) (moved : Transition s me r t r' t') :
    (solo r' me t').Coherent := by
  rw [← put_solo r]
  exact h.move (by rwa [registry_solo, threads_solo])

/-- No step takes an outcome back. -/
theorem Coherent.done_put {c : Crew} (h : c.Coherent) {me : ThreadId} {r : Registry} {t : Thread}
    (effect : Effect me c.registry (c.threads me) r t) {id : ModuleId} {o : Outcome}
    (done : c.registry.cell? id = some (.done o)) : r.cell? id = some (.done o) := by
  cases effect with
  | quiet cells => rwa [Registry.cell?_congr cells]
  | claim k new cells =>
    rw [Registry.cell?_congr cells, Registry.cell?_claim new, if_neg]
    · exact done
    · rintro rfl
      rw [new] at done
      cases done
  | publish k _ cells _ claims =>
    have mine : c.registry.cell? k = some (.loading me) := (h.owned me k).mpr (by simp [claims])
    rw [Registry.cell?_congr cells, Registry.cell?_publish, if_neg]
    · exact done
    · rintro rfl
      rw [mine] at done
      cases done
  | wait _ _ _ _ next | wake _ _ _ _ _ next => rwa [next]

theorem Coherent.done_solo {r r' : Registry} {me : ThreadId} {t t' : Thread} {s : Surroundings}
    (h : (solo r me t).Coherent) (moved : Transition s me r t r' t') {id : ModuleId} {o : Outcome}
    (done : r.cell? id = some (.done o)) : r'.cell? id = some (.done o) := by
  obtain ⟨goal, valid⟩ := h.valid me
  rw [threads_solo] at valid
  have effect : Effect me (solo r me t).registry ((solo r me t).threads me) r' t' := by
    rw [registry_solo, threads_solo]
    exact moved.effect valid
  exact h.done_put effect done

/-- Where a lone thread has ended, the registry is at rest. -/
theorem Coherent.rested {r : Registry} {me : ThreadId} {t : Thread} (h : (solo r me t).Coherent)
    {e : Ending} (ended : t.control = .ended e) : r.Rested := by
  have free : ∀ x, ((solo r me t).threads x).claims = [] ∧
      ((solo r me t).threads x).waitsFor? = none := by
    intro x
    by_cases hx : x = me
    · subst hx
      exact h.claims_of_ended (e := e) (by rwa [threads_solo])
    · rw [threads_solo_ne hx]
      exact ⟨rfl, rfl⟩
  refine ⟨fun id owner loading => ?_, fun x => ?_, h.keys⟩
  · have mem := (h.owned owner id).mp loading
    rw [(free owner).1] at mem
    cases mem
  · exact (h.waits x).trans (free x).2

/-- What a lone thread finds to be claimed is not loading: it could only be loading below. -/
theorem Coherent.not_loading {r : Registry} {me owner : ThreadId} {t : Thread} {id : ModuleId}
    (h : (solo r me t).Coherent) (sees : t.sees? = some id) :
    r.cell? id ≠ some (.loading owner) := by
  intro loading
  have mem := (h.owned owner id).mp loading
  by_cases own : owner = me
  · subst own
    have foreign := (h.seen owner id (by rwa [threads_solo])).2
    rw [threads_solo] at mem foreign
    have claims : t.claims = running t.stack := by
      cases control : t.control <;> simp [Thread.sees?, Thread.claims, control] at sees ⊢
    rw [claims] at mem
    exact foreign mem
  · rw [threads_solo_ne own] at mem
    cases mem

/-- Nothing stops a lone thread but its end. -/
theorem Coherent.ended_of_stuck {r : Registry} {me : ThreadId} {t : Thread} {s : Surroundings}
    (h : (solo r me t).Coherent) (open_ : s.held = []) (stuck : step s me r t = none) :
    ∃ e, t.control = .ended e := by
  cases ending : t.ending? with
  | some e =>
    cases control : t.control <;> simp only [Thread.ending?, control, reduceCtorEq] at ending
    exact ⟨_, rfl⟩
  | none =>
    have free : ∀ other, ¬(solo r me t).BlockedBy me other := by
      rintro other ⟨id, here, loading⟩
      rw [threads_solo] at here
      have sees : t.sees? = some id := by rw [Thread.sees?, here]
      exact h.not_loading sees loading
    obtain ⟨files, chain, held, broken⟩ := s
    obtain rfl : held = [] := open_
    have go : ∃ r' t', step ⟨files, chain, [], broken⟩ me (solo r me t).registry
        ((solo r me t).threads me) = some (r', t') := h.can_step (by rwa [threads_solo]) free broken
    obtain ⟨r', t', moved⟩ := go
    rw [threads_solo, registry_solo, stuck] at moved
    cases moved

end Crew

/-- How a thread begins: it loads a module, or it runs a script. -/
inductive Thread.Begins : Option ModuleId → Thread → Prop
  | load (id : ModuleId) : Begins (some id) (.load id)
  | script {b : Body} {name : String} (unit : b.unit = .script name) (noPending : b.pending = []) :
      Begins none (.body b)

namespace Thread.Begins

variable {goal : Option ModuleId} {t : Thread}

theorem valid (h : t.Begins goal) : t.Valid goal := by
  cases h with
  | load id => exact valid_load id
  | script unit noPending => exact valid_script unit noPending

theorem cheap (h : t.Begins goal) (n : Nat) : t.control.price n ≤ 8 := by
  cases h <;> simp [Thread.load, Thread.body, Control.price]

theorem coherent (h : t.Begins goal) {r : Registry} (rested : r.Rested) (me : ThreadId) :
    (Crew.solo r me t).Coherent := by
  have idle := Crew.coherent_idle rested me
  have begun : ((Crew.solo r me .idle).put me r t).Coherent := by
    cases h with
    | load id => exact idle.load (e := .broken none) (by rw [Crew.threads_solo]; rfl) id
    | @script b name unit noPending =>
      refine idle.put (.quiet rfl rfl ?_ ?_ rfl) (valid_script unit noPending) fun id sees => ?_
      · rw [Crew.threads_solo]
        exact running_cons_script unit []
      · rw [Crew.threads_solo]
        rfl
      · cases sees
  rwa [Crew.put_solo] at begun

end Thread.Begins

namespace Registry.Rested

variable {r : Registry} {s : Surroundings} {me : ThreadId} {t : Thread} {goal : Option ModuleId}

theorem coherent_run (rested : r.Rested) (begins : t.Begins goal) (fuel : Nat) :
    (Crew.solo (runSteps s me fuel r t).1 me (runSteps s me fuel r t).2).Coherent :=
  runSteps_keeps (P := fun r t => (Crew.solo r me t).Coherent)
    (fun moved coherent => coherent.move_solo moved) fuel (begins.coherent rested me)

theorem done_run (rested : r.Rested) (begins : t.Begins goal) (fuel : Nat) {id : ModuleId}
    {o : Outcome} (done : r.cell? id = some (.done o)) :
    (runSteps s me fuel r t).1.cell? id = some (.done o) :=
  (runSteps_keeps (P := fun r t => (Crew.solo r me t).Coherent ∧ r.cell? id = some (.done o))
    (fun moved h => ⟨h.1.move_solo moved, h.1.done_solo moved h.2⟩) fuel
    ⟨begins.coherent rested me, done⟩).2

theorem valid_run (begins : t.Begins goal) (fuel : Nat) :
    (runSteps s me fuel r t).2.Valid goal :=
  runSteps_keeps (P := fun _ t => t.Valid goal) (fun moved valid => moved.valid valid) fuel
    begins.valid

/-- A lone thread that begins runs to its end, and the registry is at rest again. -/
theorem run (rested : r.Rested) (open_ : s.held = []) (begins : t.Begins goal) {size : Nat}
    (bound : t.size ≤ size) :
    (runSteps s me (stepBound s size) r t).1.Rested ∧
      ∃ e, (runSteps s me (stepBound s size) r t).2 = ⟨[], .ended e⟩ ∧ e.Fits goal := by
  have coherent := @coherent_run r s me t goal rested begins (stepBound s size)
  have valid := @valid_run r s me t goal begins (stepBound s size)
  have stuck := runSteps_rests s me r begins.valid begins.cheap bound
  obtain ⟨e, ended⟩ := coherent.ended_of_stuck open_ stuck
  refine ⟨coherent.rested ended, e, ?_⟩
  generalize (runSteps s me (stepBound s size) r t).2 = t' at ended valid
  obtain ⟨stack, control⟩ := t'
  obtain rfl : control = .ended e := ended
  obtain ⟨rfl, fits⟩ := valid.control
  exact ⟨rfl, fits⟩

end Registry.Rested

theorem runSteps_of_stuck {s : Surroundings} {me : ThreadId} {r : Registry} {t : Thread}
    (stuck : step s me r t = none) (fuel : Nat) : runSteps s me fuel r t = (r, t) := by
  cases fuel with
  | zero => rfl
  | succ fuel => rw [runSteps, stuck]

/-- A load of a module that has its outcome ends with it and leaves everything as it is. -/
theorem runSteps_cached {s : Surroundings} {me : ThreadId} {r : Registry} {id : ModuleId}
    {o : Outcome} (done : r.cell? id = some (.done o)) {fuel : Nat} (enough : 4 ≤ fuel) :
    runSteps s me fuel r (.load id) = (r, ⟨[], .ended (.loaded o)⟩) := by
  obtain ⟨n, rfl⟩ := Nat.exists_eq_add_of_le' enough
  have ask : step s me r (.load id) = some (r, ⟨[], .look id⟩) := by
    simp [step, Thread.load, Thread.modulesFrom, Thread.modules, done]
  have see : step s me r ⟨[], .look id⟩ = some (r, ⟨[], .answer o⟩) := by simp [step, done]
  have tell : step s me r ⟨[], .answer o⟩ = some (r, ⟨[], .ended (.loaded o)⟩) := by simp [step]
  have rest : step s me r ⟨[], .ended (.loaded o)⟩ = none := rfl
  rw [runSteps, ask]
  dsimp only
  rw [runSteps, see]
  dsimp only
  rw [runSteps, tell]
  dsimp only
  exact runSteps_of_stuck rest _

theorem four_le_stepBound (s : Surroundings) (size : Nat) : 4 ≤ stepBound s size := by
  unfold stepBound
  dsimp only
  omega

end ModuleSystem
