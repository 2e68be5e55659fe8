import ModuleSystem.Proofs.Loading.Failures
import ModuleSystem.Proofs.Loading.Waiting

namespace ModuleSystem

open Relation (ReflTransGen TransGen)
open Thread (running)

/-- The source of `a` has a form that requires `b`. -/
def Requires (files : FileTree) (chain : Chain) (a b : ModuleId) : Prop :=
  ∃ source p, Surroundings.prepare ⟨files, chain, [], []⟩ a = .program source p ∧ b ∈ p.required

/-- A closed chain of modules, each of which leads to the next one. -/
structure Genuine (R : ModuleId → ModuleId → Prop) (path : List ModuleId) : Prop where
  closed : path.head? = path.getLast?
  length : 2 ≤ path.length
  linked : path.IsChain (TransGen R)

theorem Genuine.cyclic {R : ModuleId → ModuleId → Prop} {path : List ModuleId}
    (h : Genuine R path) : ∃ id, TransGen R id id := by
  obtain ⟨closed, length, linked⟩ := h
  rcases path with _ | ⟨a, _ | ⟨b, rest⟩⟩
  · cases length
  · simp at length
  · refine ⟨a, linked.rel_cons (List.mem_of_mem_getLast? ?_)⟩
    rw [List.head?_cons, List.getLast?_cons_cons] at closed
    exact closed.symm

namespace LoadError

/-- A failure that goes back to a cycle names one that is there. -/
def Honest (R : ModuleId → ModuleId → Prop) (e : LoadError) : Prop :=
  ∀ path, e.rootCause = .cycle path → Genuine R path

variable {R : ModuleId → ModuleId → Prop}

theorem Honest.inUnit {e : LoadError} (h : e.Honest R) (unit : String) :
    (e.inUnit unit).Honest R := by
  intro path cycle
  rw [rootCause_inUnit] at cycle
  exact h path cycle

theorem honest_execution (unit : String) (span : Option Coverage.Span) (message : String) :
    (execution unit span message).Honest R := by
  intro path cycle
  cases cycle

end LoadError

def Honest (R : ModuleId → ModuleId → Prop) {α : Type} (result : Except LoadError α) : Prop :=
  ∀ e, result = .error e → e.Honest R

def Control.Honest (R : ModuleId → ModuleId → Prop) : Control → Prop
  | .answer o | .ended (.loaded o) => ModuleSystem.Honest R o
  | .ended (.ran _ result) => ModuleSystem.Honest R result
  | _ => True

/-- All modules that the bodies of a stack have yet to require are required by their sources. -/
def Sourced (R : ModuleId → ModuleId → Prop) (stack : List Body) : Prop :=
  ∀ b ∈ stack, ∀ id, b.unit = .module id → ∀ q ∈ b.wants, R id q

/-- Each module that runs on a stack is related to the one that its body waits for. -/
def Awaits (R : ModuleId → ModuleId → Prop) (stack : List Body) : Prop :=
  ∀ b ∈ stack, ∀ id, b.unit = .module id → ∀ q more, b.pending = q :: more → R id q

section

variable {R : ModuleId → ModuleId → Prop}

theorem Honest.ok {α : Type} (a : α) : Honest R (.ok a : Except LoadError α) := by
  intro e none
  cases none

theorem Surroundings.prepare_honest {s : Surroundings} {id : ModuleId} {o : Outcome}
    (h : s.prepare id = .outcome o) : Honest R o := by
  rintro e rfl path cycle
  obtain ⟨_, rfl⟩ | rfl | ⟨_, _, rfl⟩ := prepare_error h <;> cases cycle

theorem Body.outcome_honest {b : Body} (id : ModuleId) {result : Except LoadError Unit}
    (h : Honest R result) : Honest R (b.outcome id result) := by
  intro e failed
  cases result with
  | error cause =>
    cases failed
    exact h e rfl
  | ok _ =>
    obtain ⟨_, rfl⟩ := sealed_error failed
    exact LoadError.honest_execution _ _ _

theorem Body.Departs.honest {b : Body} {control : Control} {r r₁ : Registry}
    {result : Except LoadError Unit} (h : b.Departs r control r₁ result)
    (told : control.Honest R) : Honest R result := by
  cases h with
  | finish => exact .ok ()
  | raise _ _ failed =>
    rintro e ⟨⟩
    obtain ⟨_, rfl⟩ := perform_error failed
    exact LoadError.honest_execution _ _ _
  | @refuse cause =>
    rintro e ⟨⟩
    exact (told cause rfl).inUnit _

theorem Sourced.of_cons {b : Body} {below : List Body} (h : Sourced R (b :: below)) :
    Sourced R below := fun x mem => h x (List.mem_cons_of_mem _ mem)

theorem Sourced.cons {b : Body} {below : List Body}
    (first : ∀ id, b.unit = .module id → ∀ q ∈ b.wants, R id q) (h : Sourced R below) :
    Sourced R (b :: below) := by
  intro x mem
  obtain rfl | mem := List.mem_cons.mp mem
  · exact first
  · exact h x mem

theorem Sourced.awaits {stack : List Body} (h : Sourced R stack) : Awaits R stack := by
  intro b mem id unit q more pending
  exact h b mem id unit q (by simp [Body.wants, pending])

/-- The modules that run on a stack are related to one another, the outermost one first, and the
innermost one to what it asks for. -/
theorem Nested.linked {goal : Option ModuleId} {stack : List Body} {id : ModuleId}
    (nested : Nested goal stack) (awaits : Awaits R stack) (asks : Asks goal id stack) :
    ((running stack).reverse ++ [id]).IsChain R := by
  induction stack generalizing id with
  | nil => exact .singleton id
  | cons b below ih =>
    obtain ⟨more, pending⟩ := asks
    cases unit : b.unit with
    | module k =>
      obtain ⟨asked, inner⟩ := nested.of_module unit
      have chain := ih inner (fun x mem => awaits x (List.mem_cons_of_mem _ mem)) asked
      have edge : R k id := awaits b List.mem_cons_self k unit id more pending
      rw [Thread.running_cons_module unit, List.reverse_cons, List.append_assoc]
      exact List.isChain_append_cons_cons.mpr ⟨chain, edge, .singleton id⟩
    | script name =>
      rw [Thread.running_cons_script unit, (nested.of_script unit).1]
      exact .singleton id

/-- The same for the running modules from one of them on. -/
theorem Nested.linkedFrom {goal : Option ModuleId} {stack : List Body} {id last : ModuleId}
    (control : Control) (nested : Nested goal stack) (awaits : Awaits R stack)
    (asks : Asks goal id stack) (mem : last ∈ running stack) :
    ∃ rest, Thread.modulesFrom ⟨stack, control⟩ last = last :: rest ∧
      last :: rest <:+ (running stack).reverse ∧ (last :: rest ++ [id]).IsChain R := by
  obtain ⟨rest, own, suffix⟩ := Thread.modulesFrom_spec (t := ⟨stack, control⟩) mem
  refine ⟨rest, own, suffix, ?_⟩
  obtain ⟨before, split⟩ := suffix
  have chain := nested.linked awaits asks
  rw [← split, List.append_assoc] at chain
  exact chain.right_of_append

theorem transGen_last {path : List ModuleId} {a b : ModuleId} (h : (path ++ [b]).IsChain R)
    (mem : a ∈ path) : TransGen R a b := by
  induction path generalizing a with
  | nil => cases mem
  | cons x rest ih =>
    cases rest with
    | nil =>
      obtain rfl := List.mem_singleton.mp mem
      exact .single (List.isChain_cons_cons.mp h).1
    | cons y rest =>
      obtain ⟨edge, onward⟩ := List.isChain_cons_cons.mp h
      obtain rfl | mem := List.mem_cons.mp mem
      · exact .head edge (ih onward (by simp))
      · exact ih onward mem

theorem Nested.transGen {goal : Option ModuleId} {stack : List Body} {a id : ModuleId}
    (nested : Nested goal stack) (sourced : Sourced R stack) (asks : Asks goal id stack)
    (mem : a ∈ running stack) : TransGen R a id :=
  transGen_last (nested.linked sourced.awaits asks) (List.mem_reverse.mpr mem)

/-- The running modules from one on, closed by a path from the module that is asked for. -/
theorem Nested.genuine {goal : Option ModuleId} {stack : List Body} {id last : ModuleId}
    {path : List ModuleId} (control : Control) (nested : Nested goal stack)
    (sourced : Sourced R stack) (asks : Asks goal id stack) (mem : last ∈ running stack)
    (first : path.head? = some id) (final : path.getLast? = some last)
    (linked : path.IsChain (TransGen R)) :
    Genuine R (Thread.modulesFrom ⟨stack, control⟩ last ++ path) := by
  obtain ⟨rest, own, _, chain⟩ := nested.linkedFrom control sourced.awaits asks mem
  have inner : (last :: rest ++ [id]).IsChain (TransGen R) := chain.imp fun _ _ => .single
  obtain ⟨mine, _, join⟩ := List.isChain_append.mp inner
  rw [own]
  refine ⟨?_, ?_, List.isChain_append.mpr ⟨mine, linked, fun x hx y hy => ?_⟩⟩
  · rw [List.getLast?_append, final]
    rfl
  · have nonempty : path ≠ [] := by
      rintro rfl
      cases first
    have := List.length_pos_iff.mpr nonempty
    simp
    omega
  · rw [first] at hy
    exact join x hx y hy

end

namespace Registry

/-- Whoever loads `a` waits for `b`. -/
def Leads (r : Registry) (a b : ModuleId) : Prop :=
  ∃ owner, r.cell? a = some (.loading owner) ∧ r.waiting? owner = some b

theorem deadlock?_spec {r : Registry} {me : ThreadId} {mine : ModuleId → List ModuleId}
    (fuel : Nat) {id : ModuleId} {links found : List ModuleId}
    (h : r.deadlock? me mine fuel id links = some found) :
    ∃ path last, r.cell? last = some (.loading me) ∧ path.head? = some id ∧
      path.getLast? = some last ∧ path.IsChain r.Leads ∧
      found = (if (mine last).isEmpty then [last] else mine last) ++ (links ++ path) := by
  induction fuel generalizing id links with
  | zero => cases h
  | succ fuel ih =>
    rcases cell : r.cell? id with _ | (owner | o)
    · simp [deadlock?, cell] at h
    · by_cases own : owner = me
      · subst own
        rw [deadlock?_own cell] at h
        cases h
        exact ⟨[id], id, cell, rfl, rfl, .singleton id, rfl⟩
      · rw [deadlock?_other cell own] at h
        obtain ⟨next, waits, h⟩ := Option.bind_eq_some_iff.mp h
        obtain ⟨path, last, mine, first, final, chain, rfl⟩ := ih h
        refine ⟨id :: path, last, mine, rfl, ?_, ?_, by simp⟩
        · rw [List.getLast?_cons, final]
          rfl
        · refine chain.cons fun y hy => ?_
          rw [first] at hy
          cases hy
          exact ⟨owner, cell, waits⟩
    · simp [deadlock?, cell] at h

end Registry

namespace Crew

/-- All bodies of all threads were begun from the sources that `R` speaks of. -/
def Sourced (R : ModuleId → ModuleId → Prop) (c : Crew) : Prop :=
  ∀ me, ModuleSystem.Sourced R (c.threads me).stack

variable {R : ModuleId → ModuleId → Prop} {c : Crew}

theorem Coherent.leads (h : c.Coherent) (sourced : c.Sourced R) {a b : ModuleId}
    (leads : c.registry.Leads a b) : TransGen R a b := by
  obtain ⟨owner, loading, waits⟩ := leads
  rw [h.owned] at loading
  rw [h.waits] at waits
  obtain ⟨goal, nested, fits⟩ := h.valid owner
  have sourced := sourced owner
  cases control : (c.threads owner).control <;>
    simp only [Thread.waitsFor?, control, reduceCtorEq, Option.some.injEq] at waits
  rw [Thread.claims, control] at loading
  rw [control, waits] at fits
  exact nested.transGen sourced fits loading

/-- The chain that a thread is told of when it may not wait. -/
theorem Coherent.closed (h : c.Coherent) (sourced : c.Sourced R) {me : ThreadId}
    {stack : List Body} {id : ModuleId} {found : List ModuleId}
    (here : c.threads me = ⟨stack, .park id⟩)
    (stuck : c.registry.deadlock? me (Thread.modulesFrom ⟨stack, .park id⟩)
      (c.registry.waits.length + 1) id [] = some found) : Genuine R found := by
  obtain ⟨path, last, loading, first, final, chain, rfl⟩ := Registry.deadlock?_spec _ stuck
  have mem : last ∈ running stack := by
    rw [h.owned, here] at loading
    exact loading
  obtain ⟨rest, own, _⟩ := Thread.modulesFrom_spec (t := ⟨stack, .park id⟩) mem
  obtain ⟨goal, nested, fits⟩ := h.valid me
  have sourced' := sourced me
  rw [here] at nested fits sourced'
  have linked := chain.imp fun _ _ leads => h.leads sourced leads
  have genuine := nested.genuine (.park id) sourced' fits mem first final linked
  simpa [own] using genuine

/-- Every failure that is kept or told is honest. -/
structure Faithful (R : ModuleId → ModuleId → Prop) (c : Crew) : Prop where
  sourced : c.Sourced R
  kept : ∀ id o, c.registry.cell? id = some (.done o) → Honest R o
  told : ∀ me, (c.threads me).control.Honest R

end Crew

theorem Transition.sourced {R : ModuleId → ModuleId → Prop} {s : Surroundings} {me : ThreadId}
    {r r' : Registry} {t t' : Thread} (h : Transition s me r t r' t')
    (sources : ∀ id source p, s.prepare id = .program source p → ∀ q ∈ p.required, R id q)
    (sourced : Sourced R t.stack) : Sourced R t'.stack := by
  cases h with
  | @begin stack id source p ready =>
    refine sourced.cons ?_
    rintro _ ⟨⟩
    exact sources id source p ready
  | perform noPending next done =>
    refine sourced.of_cons.cons ?_
    rw [(Body.perform_spec noPending done).1, Body.wants_perform noPending next done]
    exact sourced _ (by simp)
  | @receive b below m =>
    refine sourced.of_cons.cons fun id unit q mem => ?_
    exact sourced b (by simp) id unit q (b.wants_receive m q mem)
  | leaveModule | abandonModule => exact sourced.of_cons
  | leaveScript | abandonScript =>
    intro b none
    cases none
  | _ => exact sourced

/-- What a thread is told is honest, if what it finds in the cells is, and what it hears when it may
not wait. -/
theorem Transition.told {R : ModuleId → ModuleId → Prop} {s : Surroundings} {me : ThreadId}
    {r r' : Registry} {t t' : Thread} {goal : Option ModuleId} (h : Transition s me r t r' t')
    (valid : t.Valid goal) (sourced : Sourced R t.stack)
    (kept : ∀ id o, r.cell? id = some (.done o) → Honest R o) (told : t.control.Honest R)
    (closed : ∀ id found, t.control = .park id →
      r.deadlock? me t.modulesFrom (r.waits.length + 1) id [] = some found → Genuine R found) :
    t'.control.Honest R := by
  obtain ⟨nested, fits⟩ := valid
  cases h with
  | @own stack id mine =>
    rintro e ⟨⟩ path cycle
    cases cycle
    exact nested.genuine _ sourced fits mine rfl rfl (.singleton id)
  | seen found | wake found => exact kept _ _ found
  | closed stuck =>
    rintro e ⟨⟩ path cycle
    cases cycle
    exact closed _ _ rfl stuck
  | settle ready => exact Surroundings.prepare_honest ready
  | leaveModule unit departs => exact Body.outcome_honest _ (departs.honest told)
  | @leaveScript b _ _ _ result _ unit departs =>
    intro e failed
    cases result with
    | error cause =>
      cases failed
      exact departs.honest told e rfl
    | ok _ => cases failed
  | tell => exact told
  | _ => trivial

theorem Transition.kept {R : ModuleId → ModuleId → Prop} {s : Surroundings} {me : ThreadId}
    {r r' : Registry} {t t' : Thread} {goal : Option ModuleId} (h : Transition s me r t r' t')
    (valid : t.Valid goal) (kept : ∀ id o, r.cell? id = some (.done o) → Honest R o)
    (told : t'.control.Honest R) : ∀ id o, r'.cell? id = some (.done o) → Honest R o := by
  intro id o found
  obtain old | ⟨answer, _⟩ | ⟨_, rfl⟩ := h.published valid found
  · exact kept id o old
  · rwa [answer] at told
  · rintro e ⟨⟩
    exact LoadError.honest_execution _ _ _

theorem requires_of_prepare {files : FileTree} {chain : Chain} (held broken : List String)
    {id : ModuleId} {source : String} {p : Form.Program}
    (ready : Surroundings.prepare ⟨files, chain, held, broken⟩ id = .program source p) :
    ∀ q ∈ p.required, Requires files chain id q :=
  fun _ mem => ⟨source, p, ready, mem⟩

namespace Crew

variable {files : FileTree} {chain : Chain} {c : Crew}

theorem Faithful.move (h : c.Faithful (Requires files chain)) (coherent : c.Coherent)
    {held broken : List String} {me : ThreadId} {r : Registry} {t : Thread}
    (moved : Transition ⟨files, chain, held, broken⟩ me c.registry (c.threads me) r t) :
    (c.put me r t).Faithful (Requires files chain) := by
  obtain ⟨goal, valid⟩ := coherent.valid me
  have closed : ∀ id found, (c.threads me).control = .park id →
      c.registry.deadlock? me (c.threads me).modulesFrom (c.registry.waits.length + 1) id [] =
        some found → Genuine (Requires files chain) found := by
    intro id found here stuck
    have shape : c.threads me = ⟨(c.threads me).stack, .park id⟩ := by rw [← here]
    refine coherent.closed h.sourced shape ?_
    rwa [← shape]
  have told := moved.told valid (h.sourced me) h.kept (h.told me) closed
  refine ⟨fun x => ?_, moved.kept valid h.kept told, fun x => ?_⟩
  all_goals by_cases hx : x = me
  · subst hx
    rw [threads_put_self]
    exact moved.sourced (fun _ _ _ => requires_of_prepare held broken) (h.sourced x)
  · rw [threads_put_ne c hx]
    exact h.sourced x
  · subst hx
    rw [threads_put_self]
    exact told
  · rw [threads_put_ne c hx]
    exact h.told x

end Crew
end ModuleSystem
