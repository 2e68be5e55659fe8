import Mathlib.Data.Set.Card
import ModuleSystem.Proofs.Loading.CycleErrors
import ModuleSystem.Proofs.Loading.Moments

/-! A load goes down into the modules that a source requires, and nothing in the sources keeps it
from going round in a circle. What ends it is that a module is claimed before its body runs, and for
good: the modules that are named somewhere and not claimed yet are finitely many, and every load
within a load takes one of them away, unless it is answered at once. -/

namespace ModuleSystem

open Relation (ReflTransGen)
open Thread (running)

/-- The module that a thread has asked for and that has no outcome for it yet. -/
def Control.asking : Control → List ModuleId
  | .request id | .look id | .park id | .waiting id | .build id => [id]
  | _ => []

/-- The loads that a thread is in, the innermost one first. -/
def Thread.loads (t : Thread) : List ModuleId := t.control.asking ++ running t.stack

theorem Thread.running_suffix_claims (t : Thread) : running t.stack <:+ t.claims := by
  unfold claims
  split
  · exact List.suffix_cons _ _
  · exact List.suffix_rfl

theorem Thread.running_subset_claims (t : Thread) : running t.stack ⊆ t.claims :=
  t.running_suffix_claims.subset

theorem Control.asking_length (control : Control) : control.asking.length ≤ 1 := by
  cases control <;> simp [asking]

/-- What a thread asks for by itself: the module that it loads, or those that its script requires. -/
def Thread.requested (t : Thread) : List ModuleId :=
  t.control.asking ++ t.stack.flatMap Body.wants

/-- A module that a source names. -/
def Surroundings.Names (s : Surroundings) (p q : ModuleId) : Prop := q ∈ (s.prepare p).required

namespace Start

variable {start : Start} {goal : Option ModuleId}

/-- The modules that an operation asks for or that some source names, and that nobody has claimed. -/
def unseen (start : Start) (s : Surroundings) (r : Registry) : Set ModuleId :=
  {q | (q ∈ start.thread.requested ∨ ∃ p, s.Names p q) ∧ r.cell? q = none}

theorem unseen_finite (start : Start) (s : Surroundings) (r : Registry) :
    (start.unseen s r).Finite := by
  apply (List.finite_toSet (start.thread.requested ++ s.mentions)).subset
  rintro q ⟨named, _⟩
  apply List.mem_append.mpr
  obtain asked | ⟨p, names⟩ := named
  · exact .inl asked
  · right
    unfold Surroundings.Names at names
    cases prepared : s.prepare p with
    | outcome o =>
      rw [prepared] at names
      cases names
    | program source program =>
      rw [prepared] at names
      exact Surroundings.required_subset_of_prepare prepared names

theorem unseen_mono {s : Surroundings} {r r' : Registry} (more : r.claimed ⊆ r'.claimed) :
    start.unseen s r' ⊆ start.unseen s r := by
  rintro q ⟨named, none⟩
  refine ⟨named, ?_⟩
  rw [Registry.cell?_eq_none_iff] at none ⊢
  exact fun old => none (more old)

/-- Whatever was claimed stays so. -/
theorem claimed_mono (start : Start) (s : Surroundings) (m n : Nat) :
    (start.moment s m).1.claimed ⊆ (start.moment s (m + n)).1.claimed := by
  intro id claimed
  apply moment_keeps (P := fun r _ => id ∈ r.claimed) _ claimed n
  intro r r' t t' moved mem
  obtain same | ⟨new, _, more⟩ := moved.claimed
  · rwa [same]
  · rw [more]
    exact List.mem_append_left _ mem

namespace Ready

/-- Everything that is claimed was so before, or it was asked for or is named. -/
theorem claimed (ready : start.Ready goal) (s : Surroundings) (n : Nat) {q : ModuleId}
    (claimed : q ∈ (start.moment s n).1.claimed) (new : q ∉ start.registry.claimed) :
    q ∈ start.thread.requested ∨ ∃ p, s.Names p q := by
  let roots := start.thread.requested ++ start.registry.claimed
  let P (r : Registry) (t : Thread) : Prop :=
    Rooted s.Names roots goal r t ∧ t.Valid goal ∧ (Crew.solo r start.me t).Coherent
  have sources : ∀ id source p, s.prepare id = .program source p →
      ∀ q ∈ Form.Program.required p, s.Names id q := by
    intro id source p prepared q mem
    rw [Surroundings.Names, prepared]
    exact mem
  have keeps : ∀ {r r' t t'}, Transition s start.me r t r' t' → P r t → P r' t' := by
    rintro r r' t t' moved ⟨rooted, valid, coherent⟩
    exact ⟨rooted.step moved valid coherent sources, moved.valid valid, coherent.move_solo moved⟩
  have grown : start.registry.GrownFrom s.Names roots :=
    fun id mem => ⟨id, List.mem_append_right _ mem, mem, .refl⟩
  have begun := ready.begins
  have asks : start.thread.AsksWithin roots goal := by
    constructor
    · intro id wanted
      apply List.mem_append_left
      apply List.mem_append_left
      generalize start.thread = t at begun
      cases begun with
      | load x =>
        cases wanted
        exact List.mem_singleton_self id
      | script => cases wanted
    · intro b mem q wanted
      apply List.mem_append_left
      apply List.mem_append_right
      exact List.mem_flatMap.mpr ⟨b, mem, wanted⟩
  have begins : P start.registry start.thread :=
    ⟨ready.begins.rooted grown asks, ready.begins.valid,
      ready.begins.coherent ready.rested start.me⟩
  obtain ⟨root, inside, _, reach⟩ := (runSteps_keeps (P := P) keeps n begins).1.grown q claimed
  obtain rfl | ⟨p, _, names⟩ := reach.cases_tail
  · obtain asked | old := List.mem_append.mp inside
    · exact .inl asked
    · exact absurd old new
  · exact .inr ⟨p, names⟩

/-- The modules that run were not claimed when the operation began. -/
theorem running_unseen (ready : start.Ready goal) (s : Surroundings) (n : Nat) {q : ModuleId}
    (runs : q ∈ running (start.moment s n).2.stack) : q ∈ start.unseen s start.registry := by
  have coherent := ready.coherent s n
  have loading : (start.moment s n).1.cell? q = some (.loading start.me) := by
    apply (coherent.owned start.me q).mpr
    rw [Crew.threads_solo]
    exact Thread.running_subset_claims _ runs
  have new : start.registry.cell? q = none := by
    cases found : start.registry.cell? q with
    | none => rfl
    | some c =>
      cases c with
      | loading owner => exact absurd found (ready.rested.done q owner)
      | done o =>
        have done : (start.moment s n).1.cell? q = some (.done o) :=
          ready.rested.done_run ready.begins n found
        rw [loading] at done
        cases done
  have claimed : q ∈ (start.moment s n).1.claimed := Registry.mem_claimed_iff.mpr ⟨_, loading⟩
  exact ⟨ready.claimed s n claimed (Registry.cell?_eq_none_iff.mp new), new⟩

theorem running_nodup (ready : start.Ready goal) (s : Surroundings) (n : Nat) :
    (running (start.moment s n).2.stack).Nodup := by
  have once := (ready.coherent s n).once start.me
  rw [Crew.threads_solo] at once
  exact once.sublist (Thread.running_suffix_claims _).sublist

/-- All loads but the last one are of different modules that were unseen. -/
theorem loads_length (ready : start.Ready goal) (s : Surroundings) (n : Nat) :
    (start.moment s n).2.loads.length ≤ (start.unseen s start.registry).ncard + 1 := by
  have inside : ((running (start.moment s n).2.stack).toFinset : Set ModuleId) ⊆
      start.unseen s start.registry := by
    intro q mem
    exact ready.running_unseen s n (by simpa using mem)
  have few := Set.ncard_le_ncard inside (start.unseen_finite s start.registry)
  rw [Set.ncard_coe_finset, List.toFinset_card_of_nodup (ready.running_nodup s n)] at few
  have asking := (start.moment s n).2.control.asking_length
  rw [Thread.loads, List.length_append]
  omega

end Ready
end Start

theorem step_own {s : Surroundings} {me : ThreadId} {r : Registry} {stack : List Body}
    {id : ModuleId} (mine : id ∈ running stack) :
    step s me r ⟨stack, .request id⟩ = some (r, ⟨stack, .answer (.error (.cycle
      (Thread.modulesFrom ⟨stack, .request id⟩ id ++ [id])))⟩) := by
  have own : Thread.modulesFrom ⟨stack, .request id⟩ id ≠ [] :=
    fun none => Thread.modulesFrom_eq_nil_iff.mp none mine
  simp [step, own]

theorem step_foreign (s : Surroundings) (me : ThreadId) (r : Registry) {stack : List Body}
    {id : ModuleId} (foreign : id ∉ running stack) :
    step s me r ⟨stack, .request id⟩ = match r.cell? id with
      | some _ => some (r, ⟨stack, .look id⟩)
      | none => some (r.claim id me, ⟨stack, .build id⟩) := by
  have none := Thread.modulesFrom_eq_nil_iff (t := ⟨stack, .request id⟩).mpr foreign
  rw [step]
  dsimp only
  rw [none]
  rfl

/-- What becomes of a request of a lone thread: it is answered with a cycle at once, or with the
outcome that the module has, or the module is claimed. -/
theorem Crew.Coherent.request {r : Registry} {me : ThreadId} {stack : List Body} {id : ModuleId}
    (h : (Crew.solo r me ⟨stack, .request id⟩).Coherent) (s : Surroundings) :
    (∃ path, step s me r ⟨stack, .request id⟩ =
      some (r, ⟨stack, .answer (.error (.cycle path))⟩)) ∨
    (∃ o, r.cell? id = some (.done o) ∧
      step s me r ⟨stack, .request id⟩ = some (r, ⟨stack, .look id⟩) ∧
      step s me r ⟨stack, .look id⟩ = some (r, ⟨stack, .answer o⟩)) ∨
    r.cell? id = none ∧
      step s me r ⟨stack, .request id⟩ = some (r.claim id me, ⟨stack, .build id⟩) := by
  by_cases mine : id ∈ running stack
  · exact .inl ⟨_, step_own mine⟩
  · right
    have next := step_foreign s me r mine
    cases found : r.cell? id with
    | none =>
      rw [found] at next
      exact .inr ⟨rfl, next⟩
    | some c =>
      rw [found] at next
      have looking := h.move_solo (transition_of_step next)
      cases c with
      | loading owner => exact absurd found (looking.not_loading rfl)
      | done o => exact .inl ⟨o, rfl, next, by simp [step, found]⟩

namespace Start

variable {start : Start} {goal : Option ModuleId}

theorem moment_succ {s : Surroundings} {n : Nat} {r : Registry} {t : Thread}
    (next : step s start.me (start.moment s n).1 (start.moment s n).2 = some (r, t)) :
    start.moment s (n + 1) = (r, t) := by
  rw [moment_add, runSteps, next]
  rfl

theorem unseen_antitone (start : Start) (s : Surroundings) {m n : Nat} (later : m ≤ n) :
    start.unseen s (start.moment s n).1 ⊆ start.unseen s (start.moment s m).1 := by
  obtain ⟨k, rfl⟩ := Nat.exists_eq_add_of_le later
  exact unseen_mono (start.claimed_mono s m k)

/-- What a request claims was unseen until then. -/
theorem Ready.claim_unseen (ready : start.Ready goal) {s : Surroundings} {n : Nat} {id : ModuleId}
    (new : (start.moment s n).1.cell? id = none)
    (claimed : id ∈ (start.moment s (n + 1)).1.claimed) :
    start.unseen s (start.moment s (n + 1)).1 ⊂ start.unseen s (start.moment s n).1 := by
  have absent := Registry.cell?_eq_none_iff.mp new
  have first : id ∉ start.registry.claimed := by
    intro old
    have still := start.claimed_mono s 0 n old
    rw [Nat.zero_add] at still
    exact absent still
  refine ⟨start.unseen_antitone s (Nat.le_succ n), fun same => ?_⟩
  have before : id ∈ start.unseen s (start.moment s n).1 :=
    ⟨ready.claimed s (n + 1) claimed first, new⟩
  have after := (same before).2
  exact Registry.cell?_eq_none_iff.mp after claimed

/-- A request is answered with a cycle, or with the outcome that the module has, or there is one
module less that nobody has claimed. -/
theorem Ready.request (ready : start.Ready goal) (s : Surroundings) {n : Nat} {id : ModuleId}
    (asks : (start.moment s n).2.control = .request id) :
    (∃ path, start.moment s (n + 1) = ((start.moment s n).1,
      ⟨(start.moment s n).2.stack, .answer (.error (.cycle path))⟩)) ∨
    (∃ o, (start.moment s n).1.cell? id = some (.done o) ∧
      start.moment s (n + 2) =
        ((start.moment s n).1, ⟨(start.moment s n).2.stack, .answer o⟩)) ∨
    start.unseen s (start.moment s (n + 1)).1 ⊂ start.unseen s (start.moment s n).1 := by
  have coherent := ready.coherent s n
  have here : (start.moment s n).2 = ⟨(start.moment s n).2.stack, .request id⟩ := by
    rw [← asks]
  rw [here] at coherent
  obtain ⟨path, next⟩ | ⟨o, found, next, then_⟩ | ⟨new, next⟩ := coherent.request s
  · left
    rw [← here] at next
    exact ⟨path, moment_succ next⟩
  · right; left
    rw [← here] at next
    have looking := moment_succ next
    refine ⟨o, found, moment_succ (n := n + 1) ?_⟩
    rw [looking]
    exact then_
  · right; right
    rw [← here] at next
    apply ready.claim_unseen new
    rw [moment_succ next, Registry.claimed_claim]
    exact List.mem_append_right _ (List.mem_singleton_self id)

end Start

/-- Whatever an operation loads or runs, and whatever was claimed before, it comes to its end, and
tells of it. The loads that it is in are never more than the modules that were unseen when it began,
and one more; and each load within it is answered with a cycle or with an outcome that is there, or
leaves fewer modules unseen. -/
theorem Runtime.loading_ends (chain : Chain) (recorder : Recorder) (broken : List String)
    (ops : List (FileTree × Call)) {files : FileTree} {call : Call} {start : Start}
    (begun : ((create chain recorder broken).run ops).start? files call = some start) :
    let rt := (create chain recorder broken).run ops
    let moment := start.moment (rt.loader.surroundings files)
    let unseen := fun n => start.unseen (rt.loader.surroundings files) (moment n).1
    (∃ last e, (rt.call files call).2.Tells e ∧
      ∀ n, moment (last + n) = ((rt.call files call).1.loader.registry, ⟨[], .ended e⟩)) ∧
    (unseen 0).Finite ∧
    (∀ n, (moment n).2.loads.length ≤ (unseen 0).ncard + 1) ∧
    (∀ m n, m ≤ n → unseen n ⊆ unseen m) ∧
    ∀ n id, (moment n).2.control = .request id →
      (∃ path, moment (n + 1) =
        ((moment n).1, ⟨(moment n).2.stack, .answer (.error (.cycle path))⟩)) ∨
      (∃ o, (moment n).1.cell? id = some (.done o) ∧
        moment (n + 2) = ((moment n).1, ⟨(moment n).2.stack, .answer o⟩)) ∨
      unseen (n + 1) ⊂ unseen n := by
  intro rt moment unseen
  have idle : rt.loader.Idle := idle_run (idle_create chain recorder broken) ops
  obtain ⟨goal, ready, _, last, e, ended, _, tells⟩ := call_start idle begun
  refine ⟨⟨last, e, tells, fun n => Start.moment_of_ended ended n⟩, ?_, ?_, ?_, ?_⟩
  · exact start.unseen_finite _ _
  · intro n
    exact ready.loads_length _ n
  · intro m n later
    exact start.unseen_antitone _ later
  · intro n id asks
    exact ready.request _ asks

/-- A module that requires itself is loaded first; then one of two that require each other, where
the second one also requires the first module and one that is missing. -/
theorem Runtime.loading_ends_circular :
    let source (name text : String) : Place × FileNode :=
      (["src", name], .file (Utf8.encode text))
    let files : FileTree := ⟨[(["src"], .dir), source "a.loam" "[\"require\", \"/a\"]",
      source "b.loam" "[\"require\", \"/c\"]",
      source "c.loam" "[\"require\", \"/b\", \"/a\", \"/d\"]"], []⟩
    let a : ModuleId := ⟨"/a", by decide⟩
    let b : ModuleId := ⟨"/b", by decide⟩
    let rt := (create [.directory "/"] .off []).run [(files, .load a)]
    ∃ start, rt.start? files (.load b) = some start ∧
      (∃ last e, (rt.call files (.load b)).2.Tells e ∧
        ∀ n, start.moment (rt.loader.surroundings files) (last + n) =
          ((rt.call files (.load b)).1.loader.registry, ⟨[], .ended e⟩)) ∧
      ∀ n, (start.moment (rt.loader.surroundings files) n).2.loads.length ≤
        (start.unseen (rt.loader.surroundings files) start.registry).ncard + 1 := by
  intro source files a b rt
  have same : rt = (create [.directory "/"] .off []).run [(files, .load a)] := rfl
  clear_value rt
  have begun : rt.start? files (.load b) = some ⟨rt.loader.registry, mainThread, .load b⟩ := by
    simp only [Runtime.start?]
  have all := loading_ends [.directory "/"] .off [] [(files, .load a)] (same ▸ begun)
  rw [← same] at all
  obtain ⟨ends, _, nesting, _⟩ := all
  exact ⟨_, begun, ends, nesting⟩

end ModuleSystem
