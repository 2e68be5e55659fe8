import ModuleSystem.Proofs.Loading.Stack

/-! Any number of threads load at the same time, and their steps follow one another in any order. In
every state that they reach, a module is loading for a thread exactly if that thread has claimed it,
and a wait is entered exactly for the threads that wait. -/

namespace ModuleSystem

open Thread (running)

namespace Thread

/-- A thread that has nothing to do. -/
def idle : Thread := ⟨[], .ended (.broken none)⟩

/-- The modules that a thread has claimed and not published yet. -/
def claims (t : Thread) : List ModuleId :=
  match t.control with
  | .build id => id :: running t.stack
  | _ => running t.stack

def waitsFor? (t : Thread) : Option ModuleId :=
  match t.control with
  | .waiting id => some id
  | _ => none

/-- The module that a thread has found to be claimed. -/
def sees? (t : Thread) : Option ModuleId :=
  match t.control with
  | .look id | .park id | .waiting id => some id
  | _ => none

end Thread

/-- What a step of the thread `me` does to the things that other threads see. -/
inductive Effect (me : ThreadId) (r : Registry) (t : Thread) (r' : Registry) (t' : Thread) : Prop
  | quiet (cells : r'.cells = r.cells) (waits : r'.waits = r.waits) (claims : t'.claims = t.claims)
      (before : t.waitsFor? = none) (after : t'.waitsFor? = none)
  | claim (id : ModuleId) (new : r.cell? id = none) (cells : r'.cells = (r.claim id me).cells)
      (waits : r'.waits = r.waits) (claims : t'.claims = id :: t.claims)
      (before : t.waitsFor? = none) (after : t'.waitsFor? = none)
  | publish (id : ModuleId) (o : Outcome)
      (cells : r'.cells = (r.publish id o).cells)
      (waits : r'.waits = r.waits) (claims : t.claims = id :: t'.claims)
      (before : t.waitsFor? = none) (after : t'.waitsFor? = none)
  | wait (stack : List Body) (id : ModuleId) (here : t = ⟨stack, .park id⟩)
      (there : t' = ⟨stack, .waiting id⟩) (next : r' = r.wait me id)
      (free : r.deadlock? me t.modulesFrom (r.waits.length + 1) id [] = none)
  | wake (stack : List Body) (id : ModuleId) (o : Outcome) (here : t = ⟨stack, .waiting id⟩)
      (there : t' = ⟨stack, .answer o⟩) (next : r' = r.wake me)
      (found : r.cell? id = some (.done o))

theorem Body.Departs.claims {b : Body} {control : Control} {r r₁ : Registry}
    {result : Except LoadError Unit} (h : b.Departs r control r₁ result) (stack : List Body) :
    Thread.claims ⟨stack, control⟩ = running stack ∧ Thread.waitsFor? ⟨stack, control⟩ = none := by
  cases h <;> exact ⟨rfl, rfl⟩

theorem Transition.effect {s : Surroundings} {me : ThreadId} {r r' : Registry} {t t' : Thread}
    {goal : Option ModuleId} (h : Transition s me r t r' t') (valid : t.Valid goal) :
    Effect me r t r' t' := by
  cases h with
  | claim _ new => exact .claim _ new rfl rfl rfl rfl rfl
  | wait free => exact .wait _ _ rfl rfl rfl free
  | wake found => exact .wake _ _ _ rfl rfl rfl found
  | @settle stack id o _ =>
    obtain ⟨cells, waits⟩ := s.noted_quiet r id
    exact .publish id o (by rw [Registry.publish, cells, Registry.publish]) waits rfl rfl rfl
  | begin =>
    refine .quiet rfl rfl ?_ rfl rfl
    simp [Thread.claims, running, Body.start, BodyUnit.id?]
  | perform noPending _ done =>
    refine .quiet rfl rfl ?_ rfl rfl
    exact Thread.running_cons_of_unit_eq (Body.perform_spec noPending done).1 _
  | @leaveModule b below _ r₁ result id unit departs =>
    obtain ⟨cells, waits⟩ := departs.quiet
    obtain ⟨claims, waitsFor⟩ := departs.claims (b :: below)
    refine .publish id (b.outcome id result) ?_ waits ?_ waitsFor rfl
    · rw [Registry.publish, cells, Registry.publish]
    · rw [claims, Thread.running_cons_module unit]
      rfl
  | @leaveScript b below _ r₁ result name unit departs =>
    obtain ⟨cells, waits⟩ := departs.quiet
    obtain ⟨claims, waitsFor⟩ := departs.claims (b :: below)
    refine .quiet cells waits ?_ waitsFor rfl
    rw [claims, Thread.running_cons_script unit, (valid.nested.of_script unit).1]
    rfl
  | @abandonModule b below id unit =>
    refine .publish id (.error (abandoned id)) rfl rfl ?_ rfl rfl
    exact Thread.running_cons_module unit below
  | @abandonScript b below name unit =>
    refine .quiet rfl rfl ?_ rfl rfl
    have bottom : below = [] := (valid.nested.of_script unit).1
    subst bottom
    exact (Thread.running_cons_script unit []).symm
  | own | known | seen | busy | closed | snap | enter | ask | tell | receive | unwound =>
    exact .quiet rfl rfl rfl rfl rfl

/-- A module that a thread has found to be claimed stays so, and is not one of its own. -/
theorem Transition.sees_claimed {s : Surroundings} {me : ThreadId} {r r' : Registry} {t t' : Thread}
    (h : Transition s me r t r' t')
    (seen : ∀ id, t.sees? = some id → id ∈ r.claimed ∧ id ∉ running t.stack) :
    ∀ id, t'.sees? = some id → id ∈ r'.claimed ∧ id ∉ running t'.stack := by
  cases h with
  | known foreign found =>
    rintro id ⟨⟩
    exact ⟨Registry.mem_claimed_iff.mpr ⟨_, found⟩, foreign⟩
  | busy | wait =>
    rintro id ⟨⟩
    exact seen _ rfl
  | _ =>
    intro id none
    cases none

theorem Effect.claimed_mono {me : ThreadId} {r r' : Registry} {t t' : Thread}
    (h : Effect me r t r' t') {id : ModuleId} (mem : id ∈ r.claimed) : id ∈ r'.claimed := by
  cases h with
  | quiet cells => rwa [Registry.claimed_congr cells]
  | claim _ _ cells =>
    rw [Registry.claimed_congr cells, Registry.claimed_claim]
    exact List.mem_append_left _ mem
  | publish _ _ cells => rwa [Registry.claimed_congr cells, Registry.claimed_publish]
  | wait _ _ _ _ next | wake _ _ _ _ _ next => rwa [next]

/-- The threads that load, and what they share. -/
structure Crew where
  registry : Registry
  threads : ThreadId → Thread

namespace Crew

/-- Nothing has been asked for yet. -/
def fresh (recorder : Recorder) : Crew := ⟨.empty recorder, fun _ => .idle⟩

/-- What the thread `me` leaves behind. -/
def put (c : Crew) (me : ThreadId) (r : Registry) (t : Thread) : Crew :=
  ⟨r, fun x => if x = me then t else c.threads x⟩

/-- What can happen next: a step of some thread, of which some bodies may be held back or break off;
a thread without work begins to load a module or to run a script; a script does not compile; a
module is registered. -/
inductive Step (files : FileTree) (chain : Chain) : Crew → Crew → Prop
  | move {c : Crew} (me : ThreadId) (held broken : List String) {r : Registry} {t : Thread}
      (h : step ⟨files, chain, held, broken⟩ me c.registry (c.threads me) = some (r, t)) :
      Step files chain c (c.put me r t)
  | load {c : Crew} (me : ThreadId) (id : ModuleId) {e : Ending}
      (free : (c.threads me).control = .ended e) :
      Step files chain c (c.put me c.registry (.load id))
  | script {c : Crew} (me : ThreadId) (name text : String) (scope : Namespace) {e : Ending}
      {r : Registry} {p : Form.Program} (free : (c.threads me).control = .ended e)
      (compiled : c.registry.compile (.script name) name text = (r, .ok p)) :
      Step files chain c (c.put me r (.body (.start (.script name) name scope p)))
  | reject {c : Crew} (name text : String) {r : Registry} {e : LoadError}
      (failed : c.registry.compile (.script name) name text = (r, .error e)) :
      Step files chain c { c with registry := r }
  | register {c : Crew} (m : ModuleInstance) :
      Step files chain c { c with registry := (c.registry.register m).1 }

inductive Reachable (files : FileTree) (chain : Chain) : Crew → Prop
  | fresh (recorder : Recorder) : Reachable files chain (.fresh recorder)
  | step {c c' : Crew} : Reachable files chain c → Step files chain c c' → Reachable files chain c'

/-- The registry and the threads tell the same of claims and waits. -/
structure Coherent (c : Crew) : Prop where
  valid : ∀ me, ∃ goal, (c.threads me).Valid goal
  owned : ∀ me id, c.registry.cell? id = some (.loading me) ↔ id ∈ (c.threads me).claims
  once : ∀ me, (c.threads me).claims.Nodup
  waits : ∀ me, c.registry.waiting? me = (c.threads me).waitsFor?
  seen : ∀ me id, (c.threads me).sees? = some id →
    id ∈ c.registry.claimed ∧ id ∉ running (c.threads me).stack
  keys : c.registry.claimed.Nodup

@[simp] theorem threads_put_self (c : Crew) (me : ThreadId) (r : Registry) (t : Thread) :
    (c.put me r t).threads me = t := if_pos rfl

theorem threads_put_ne (c : Crew) {me x : ThreadId} (h : x ≠ me) (r : Registry) (t : Thread) :
    (c.put me r t).threads x = c.threads x := if_neg h

@[simp] theorem registry_put (c : Crew) (me : ThreadId) (r : Registry) (t : Thread) :
    (c.put me r t).registry = r := rfl

namespace Coherent

variable {c : Crew} {me : ThreadId} {r : Registry} {t : Thread}

/-- Who loads what stays as it is while the cells and the claims of the thread do. -/
theorem owned_same (h : c.Coherent) (cells : r.cells = c.registry.cells)
    (claims : t.claims = (c.threads me).claims) (x : ThreadId) (id : ModuleId) :
    r.cell? id = some (.loading x) ↔ id ∈ ((c.put me r t).threads x).claims := by
  rw [Registry.cell?_congr cells, h.owned x id]
  by_cases hx : x = me
  · subst hx
    rw [threads_put_self, claims]
  · rw [threads_put_ne c hx]

theorem owned_put (h : c.Coherent) (effect : Effect me c.registry (c.threads me) r t)
    (x : ThreadId) (id : ModuleId) :
    r.cell? id = some (.loading x) ↔ id ∈ ((c.put me r t).threads x).claims := by
  have before := h.owned x id
  cases effect with
  | quiet cells _ claims => exact h.owned_same cells claims x id
  | claim k new cells _ claims =>
    rw [Registry.cell?_congr cells, Registry.cell?_claim new]
    by_cases hx : x = me
    · subst hx
      rw [threads_put_self, claims, List.mem_cons, ← before]
      by_cases hk : id = k <;> simp [hk]
    · rw [threads_put_ne c hx, ← before]
      by_cases hk : id = k
      · subst hk
        simp [new, Ne.symm hx]
      · rw [if_neg hk]
  | publish k o cells _ claims =>
    have mine : c.registry.cell? k = some (.loading me) := (h.owned me k).mpr (by simp [claims])
    have once := h.once me
    rw [claims, List.nodup_cons] at once
    rw [Registry.cell?_congr cells, Registry.cell?_publish]
    by_cases hx : x = me
    · subst hx
      rw [threads_put_self]
      by_cases hk : id = k
      · subst hk
        simp [mine, once.1]
      · rw [if_neg hk, before, claims, List.mem_cons]
        simp [hk]
    · rw [threads_put_ne c hx, ← before]
      by_cases hk : id = k
      · subst hk
        simp [mine, Ne.symm hx]
      · rw [if_neg hk]
  | wait stack k here there next =>
    subst next there
    have claims : Thread.claims ⟨stack, .waiting k⟩ = (c.threads me).claims := by rw [here]; rfl
    exact h.owned_same rfl claims x id
  | wake stack k o here there next =>
    subst next there
    have claims : Thread.claims ⟨stack, .answer o⟩ = (c.threads me).claims := by rw [here]; rfl
    exact h.owned_same rfl claims x id

theorem once_put (h : c.Coherent) (effect : Effect me c.registry (c.threads me) r t) :
    t.claims.Nodup := by
  have before := h.once me
  cases effect with
  | quiet _ _ claims => rwa [claims]
  | claim k new _ _ claims =>
    rw [claims, List.nodup_cons]
    refine ⟨fun mem => ?_, before⟩
    rw [← h.owned, new] at mem
    cases mem
  | publish _ _ _ _ claims =>
    rw [claims] at before
    exact before.of_cons
  | wait _ _ here there | wake _ _ _ here there =>
    rw [here] at before
    rw [there]
    exact before

theorem waits_put (h : c.Coherent) (effect : Effect me c.registry (c.threads me) r t)
    (x : ThreadId) : r.waiting? x = ((c.put me r t).threads x).waitsFor? := by
  have before := h.waits x
  cases effect with
  | quiet _ waits _ here there | claim _ _ _ waits _ here there
    | publish _ _ _ waits _ here there =>
    rw [Registry.waiting?_congr waits, before]
    by_cases hx : x = me
    · subst hx
      rw [threads_put_self, here, there]
    · rw [threads_put_ne c hx]
  | wait _ _ _ there next =>
    rw [next, Registry.waiting?_wait]
    by_cases hx : x = me
    · subst hx
      rw [threads_put_self, there, if_pos rfl]
      rfl
    · rw [threads_put_ne c hx, if_neg hx, before]
  | wake _ _ _ _ there next =>
    rw [next, Registry.waiting?_wake]
    by_cases hx : x = me
    · subst hx
      rw [threads_put_self, there, if_pos rfl]
      rfl
    · rw [threads_put_ne c hx, if_neg hx, before]

theorem keys_put (h : c.Coherent) (effect : Effect me c.registry (c.threads me) r t) :
    r.claimed.Nodup := by
  have before := h.keys
  cases effect with
  | quiet cells => rwa [Registry.claimed_congr cells]
  | publish _ _ cells => rwa [Registry.claimed_congr cells, Registry.claimed_publish]
  | claim k new cells =>
    rw [Registry.claimed_congr cells, Registry.claimed_claim]
    exact Registry.nodup_push before new
  | wait _ _ _ _ next | wake _ _ _ _ _ next => rwa [next]

theorem put (h : c.Coherent) (effect : Effect me c.registry (c.threads me) r t)
    {goal : Option ModuleId} (valid : t.Valid goal)
    (seen : ∀ id, t.sees? = some id → id ∈ r.claimed ∧ id ∉ running t.stack) :
    (c.put me r t).Coherent := by
  refine ⟨fun x => ?_, h.owned_put effect, fun x => ?_, h.waits_put effect, fun x => ?_,
    h.keys_put effect⟩
  all_goals by_cases hx : x = me
  · subst hx
    rw [threads_put_self]
    exact ⟨goal, valid⟩
  · rw [threads_put_ne c hx]
    exact h.valid x
  · subst hx
    rw [threads_put_self]
    exact h.once_put effect
  · rw [threads_put_ne c hx]
    exact h.once x
  · subst hx
    rw [threads_put_self]
    exact seen
  · rw [threads_put_ne c hx]
    intro id sees
    obtain ⟨claimed, foreign⟩ := h.seen x id sees
    exact ⟨effect.claimed_mono claimed, foreign⟩

/-- One step of one thread. -/
theorem move (h : c.Coherent) {s : Surroundings}
    (moved : Transition s me c.registry (c.threads me) r t) : (c.put me r t).Coherent := by
  obtain ⟨goal, valid⟩ := h.valid me
  exact h.put (moved.effect valid) (moved.valid valid) (moved.sees_claimed (h.seen me))

theorem claims_of_ended (h : c.Coherent) {e : Ending} (free : (c.threads me).control = .ended e) :
    (c.threads me).claims = [] ∧ (c.threads me).waitsFor? = none := by
  obtain ⟨goal, valid⟩ := h.valid me
  have fits := valid.control
  rw [free] at fits
  exact ⟨by rw [Thread.claims, free, fits.1]; rfl, by rw [Thread.waitsFor?, free]⟩

/-- A thread without work begins to load. -/
theorem load (h : c.Coherent) {e : Ending} (free : (c.threads me).control = .ended e)
    (id : ModuleId) : (c.put me c.registry (.load id)).Coherent := by
  obtain ⟨claims, waitsFor⟩ := h.claims_of_ended free
  refine h.put (.quiet rfl rfl claims.symm waitsFor rfl) (Thread.valid_load id) ?_
  intro id none
  cases none

/-- A thread without work begins to run a script. -/
theorem script (h : c.Coherent) {e : Ending} (free : (c.threads me).control = .ended e)
    {name source : String} (scope : Namespace) (p : Form.Program)
    (cells : r.cells = c.registry.cells) (waits : r.waits = c.registry.waits) :
    (c.put me r (.body (.start (.script name) source scope p))).Coherent := by
  obtain ⟨claims, waitsFor⟩ := h.claims_of_ended free
  have unit : (Body.start (.script name) source scope p).unit = .script name := rfl
  refine h.put (.quiet cells waits claims.symm waitsFor rfl) (Thread.valid_script unit rfl) ?_
  intro id none
  cases none

/-- What is reported changes nothing. -/
theorem report (h : c.Coherent) (cells : r.cells = c.registry.cells)
    (waits : r.waits = c.registry.waits) : Coherent { c with registry := r } := by
  refine ⟨h.valid, fun x id => ?_, h.once, fun x => ?_, fun x id sees => ?_, ?_⟩
  · rw [Registry.cell?_congr cells]
    exact h.owned x id
  · rw [Registry.waiting?_congr waits]
    exact h.waits x
  · rw [Registry.claimed_congr cells]
    exact h.seen x id sees
  · rw [Registry.claimed_congr cells]
    exact h.keys

theorem register (h : c.Coherent) (m : ModuleInstance) :
    Coherent { c with registry := (c.registry.register m).1 } := by
  cases found : c.registry.cell? m.id with
  | some _ => rwa [Registry.register_of_some found]
  | none =>
    have keys := Registry.claimed_register found
    refine ⟨h.valid, fun x id => ?_, h.once, fun x => ?_, fun x id sees => ?_, ?_⟩
    · rw [← h.owned x id, Registry.register_of_none found, Registry.cell?,
        Registry.lookup_push found]
      by_cases hid : id = m.id
      · subst hid
        simp [found]
      · rw [if_neg hid]
    · rw [Registry.register_of_none found]
      exact h.waits x
    · obtain ⟨claimed, foreign⟩ := h.seen x id sees
      rw [keys]
      exact ⟨List.mem_append_left _ claimed, foreign⟩
    · rw [keys]
      exact Registry.nodup_push h.keys found

end Coherent

theorem Coherent.fresh (recorder : Recorder) : (Crew.fresh recorder).Coherent where
  valid _ := ⟨none, trivial, rfl, trivial⟩
  owned _ _ := by simp [Crew.fresh, Registry.empty, Registry.cell?, Thread.idle, Thread.claims,
    Thread.running_nil]
  once _ := List.nodup_nil
  waits _ := rfl
  seen _ _ none := by cases none
  keys := List.nodup_nil

theorem Reachable.coherent {files : FileTree} {chain : Chain} {c : Crew}
    (h : Reachable files chain c) : c.Coherent := by
  induction h with
  | fresh recorder => exact .fresh recorder
  | @step c _ _ step ih =>
    cases step with
    | move me _ _ h => exact ih.move (transition_of_step h)
    | load me id free => exact ih.load free id
    | script me name text scope free compiled =>
      obtain ⟨cells, waits⟩ := c.registry.compile_quiet (.script name) name text
      rw [compiled] at cells waits
      exact ih.script free scope _ cells waits
    | reject name text failed =>
      obtain ⟨cells, waits⟩ := c.registry.compile_quiet (.script name) name text
      rw [failed] at cells waits
      exact ih.report cells waits
    | register m => exact ih.register m

end Crew
end ModuleSystem
