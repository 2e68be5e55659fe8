import Mathlib.Data.List.Chain
import Mathlib.Data.List.Perm.Subperm
import Mathlib.Logic.Relation
import ModuleSystem.Proofs.Loading.Crew

/-! No threads ever wait for one another in a circle. A thread follows the waits before it enters
its own, and nobody enters a wait in between; all other steps only take waits away. -/

namespace ModuleSystem

open Relation (ReflTransGen TransGen)

/-- A relation with one more edge has only those new paths that lead through it. -/
theorem transGen_through {α : Type} {R S : α → α → Prop} {x y : α}
    (more : ∀ a b, S a b → R a b ∨ a = x ∧ b = y) {a b : α} (path : TransGen S a b) :
    TransGen R a b ∨ ReflTransGen R a x ∧ ReflTransGen R y b := by
  induction path with
  | single edge =>
    obtain old | ⟨rfl, rfl⟩ := more _ _ edge
    · exact .inl (.single old)
    · exact .inr ⟨.refl, .refl⟩
  | tail _ edge ih =>
    obtain old | ⟨rfl, rfl⟩ := more _ _ edge
    · obtain before | ⟨there, back⟩ := ih
      · exact .inl (before.tail old)
      · exact .inr ⟨there, back.tail old⟩
    · obtain before | ⟨there, _⟩ := ih
      · exact .inr ⟨before.to_reflTransGen, .refl⟩
      · exact .inr ⟨there, .refl⟩

namespace Registry

/-- The thread `a` waits for a module that `b` has not published yet. -/
def BlockedBy (r : Registry) (a b : ThreadId) : Prop :=
  ∃ id, r.waiting? a = some id ∧ r.cell? id = some (.loading b)

/-- No threads wait for one another in a circle. -/
def Acyclic (r : Registry) : Prop := ∀ a, ¬TransGen r.BlockedBy a a

theorem BlockedBy.mem_waits {r : Registry} {a b : ThreadId} (h : r.BlockedBy a b) :
    a ∈ r.waits.map (·.1) := by
  obtain ⟨id, waits, _⟩ := h
  rw [waiting?] at waits
  refine Decidable.by_contra fun absent => ?_
  have none : r.waits.lookup a = none := by
    refine List.lookup_eq_none_iff.mpr fun p mem => bne_iff_ne.mpr ?_
    rintro rfl
    exact absent (List.mem_map_of_mem mem)
  rw [none] at waits
  cases waits

/-- A walk along the waits, with the last thread first. -/
abbrev Walk (r : Registry) (walk : List ThreadId) : Prop :=
  walk.IsChain fun a b => r.BlockedBy b a

theorem Walk.reaches {r : Registry} {a b : ThreadId} {before : List ThreadId}
    (h : r.Walk (a :: before)) (mem : b ∈ before) : TransGen r.BlockedBy b a := by
  induction before generalizing a with
  | nil => cases mem
  | cons x rest ih =>
    rw [Walk, List.isChain_cons_cons] at h
    obtain rfl | mem := List.mem_cons.mp mem
    · exact .single h.1
    · exact (ih h.2 mem).tail h.1

theorem Walk.nodup {r : Registry} (acyclic : r.Acyclic) {walk : List ThreadId} (h : r.Walk walk) :
    walk.Nodup := by
  induction walk with
  | nil => exact List.nodup_nil
  | cons a before ih =>
    refine List.nodup_cons.mpr ⟨fun mem => acyclic a (h.reaches mem), ih ?_⟩
    exact h.tail

/-- Every thread of a walk but the last one waits. -/
theorem Walk.mem_waits {r : Registry} {a b : ThreadId} {before : List ThreadId}
    (h : r.Walk (a :: before)) (mem : b ∈ before) : b ∈ r.waits.map (·.1) := by
  induction before generalizing a with
  | nil => cases mem
  | cons x rest ih =>
    rw [Walk, List.isChain_cons_cons] at h
    obtain rfl | mem := List.mem_cons.mp mem
    · exact h.1.mem_waits
    · exact ih h.2 mem

theorem Walk.length_le {r : Registry} (acyclic : r.Acyclic) {a : ThreadId} {before : List ThreadId}
    (h : r.Walk (a :: before)) : before.length ≤ r.waits.length := by
  have once : before.Nodup := (h.nodup acyclic).of_cons
  have inside : before ⊆ r.waits.map (·.1) := fun _ mem => h.mem_waits mem
  simpa using (List.subperm_of_subset once inside).length_le

theorem deadlock?_own {r : Registry} {me : ThreadId} {id : ModuleId}
    (loading : r.cell? id = some (.loading me)) (mine : ModuleId → List ModuleId) (fuel : Nat)
    (links : List ModuleId) :
    r.deadlock? me mine (fuel + 1) id links =
      some ((if (mine id).isEmpty then [id] else mine id) ++ (links ++ [id])) := by
  simp only [deadlock?, loading, if_pos]

theorem deadlock?_other {r : Registry} {me owner : ThreadId} {id : ModuleId}
    (loading : r.cell? id = some (.loading owner)) (other : owner ≠ me)
    (mine : ModuleId → List ModuleId) (fuel : Nat) (links : List ModuleId) :
    r.deadlock? me mine (fuel + 1) id links =
      (r.waiting? owner).bind fun next => r.deadlock? me mine fuel next (links ++ [id]) := by
  simp only [deadlock?, loading, if_neg other, waiting?]
  cases r.waits.lookup owner <;> rfl

/-- If following the waits does not come back, then nothing leads back. The fuel does not run out
first, because no thread is met twice. -/
theorem not_reaches_of_deadlock? {r : Registry} (acyclic : r.Acyclic) {me : ThreadId}
    {mine : ModuleId → List ModuleId} (fuel : Nat) {id : ModuleId} {owner : ThreadId}
    {links : List ModuleId} {before : List ThreadId} (loading : r.cell? id = some (.loading owner))
    (walk : r.Walk (owner :: before)) (enough : before.length + fuel = r.waits.length + 1)
    (free : r.deadlock? me mine fuel id links = none) : ¬ReflTransGen r.BlockedBy owner me := by
  induction fuel generalizing id owner links before with
  | zero =>
    have short := walk.length_le acyclic
    omega
  | succ fuel ih =>
    have other : owner ≠ me := by
      rintro rfl
      rw [deadlock?_own loading] at free
      cases free
    rw [deadlock?_other loading other] at free
    intro back
    obtain rfl | ⟨next, blocked, onward⟩ := back.cases_head
    · exact other rfl
    · have longer : r.Walk (next :: owner :: before) := List.isChain_cons_cons.mpr ⟨blocked, walk⟩
      obtain ⟨awaited, waits, held⟩ := blocked
      rw [waits] at free
      refine ih held longer ?_ free onward
      simp only [List.length_cons]
      omega

/-- Whoever waits, waits in the end for a thread that does not. -/
theorem exists_unblocked {r : Registry} (acyclic : r.Acyclic) (a : ThreadId) :
    ∃ b, ReflTransGen r.BlockedBy a b ∧ ∀ x, ¬r.BlockedBy b x := by
  suffices walks : ∀ (n : Nat) (x : ThreadId) (before : List ThreadId), r.Walk (x :: before) →
      before.length + n = r.waits.length + 1 →
      ∃ b, ReflTransGen r.BlockedBy x b ∧ ∀ y, ¬r.BlockedBy b y by
    exact walks (r.waits.length + 1) a [] (.singleton a) (by simp)
  intro n
  induction n with
  | zero =>
    intro x before walk enough
    have short := walk.length_le acyclic
    omega
  | succ n ih =>
    intro x before walk enough
    by_cases stuck : ∃ y, r.BlockedBy x y
    · obtain ⟨y, blocked⟩ := stuck
      obtain ⟨b, path, last⟩ := ih y (x :: before) (List.isChain_cons_cons.mpr ⟨blocked, walk⟩)
        (by simp only [List.length_cons]; omega)
      exact ⟨b, .head blocked path, last⟩
    · exact ⟨x, .refl, fun y blocked => stuck ⟨y, blocked⟩⟩

theorem Acyclic.mono {r r' : Registry} (h : r.Acyclic)
    (fewer : ∀ a b, r'.BlockedBy a b → r.BlockedBy a b) : r'.Acyclic :=
  fun a cycle => h a (TransGen.mono fewer a a cycle)

theorem Acyclic.congr {r r' : Registry} (h : r.Acyclic) (cells : r'.cells = r.cells)
    (waits : r'.waits = r.waits) : r'.Acyclic := by
  refine h.mono fun a b => ?_
  rintro ⟨id, entered, loading⟩
  rw [waiting?_congr waits] at entered
  rw [cell?_congr cells] at loading
  exact ⟨id, entered, loading⟩

theorem Acyclic.register {r : Registry} (h : r.Acyclic) (m : ModuleInstance) :
    (r.register m).1.Acyclic := by
  cases found : r.cell? m.id with
  | some _ => rwa [register_of_some found]
  | none =>
    rw [register_of_none found]
    refine h.mono fun a b => ?_
    rintro ⟨id, entered, loading⟩
    rw [cell?, lookup_push found] at loading
    split at loading
    · cases loading
    · exact ⟨id, entered, loading⟩

/-- A module that is claimed only now is not waited for. -/
theorem Acyclic.claim {r : Registry} (h : r.Acyclic) {k : ModuleId} (new : r.cell? k = none)
    (waited : ∀ {a id}, r.waiting? a = some id → id ∈ r.claimed) (me : ThreadId) :
    (r.claim k me).Acyclic := by
  refine h.mono fun a b => ?_
  rintro ⟨id, entered, loading⟩
  have other : id ≠ k := by
    rintro rfl
    exact cell?_eq_none_iff.mp new (waited entered)
  rw [cell?_claim new, if_neg other] at loading
  exact ⟨id, entered, loading⟩

theorem Acyclic.publish {r : Registry} (h : r.Acyclic) (k : ModuleId) (o : Outcome) :
    (r.publish k o).Acyclic := by
  refine h.mono fun a b => ?_
  rintro ⟨id, entered, loading⟩
  rw [cell?_publish] at loading
  split at loading
  · obtain ⟨_, _, done⟩ := Option.map_eq_some_iff.mp loading
    cases done
  · exact ⟨id, entered, loading⟩

theorem Acyclic.wake {r : Registry} (h : r.Acyclic) (me : ThreadId) : (r.wake me).Acyclic := by
  refine h.mono fun a b => ?_
  rintro ⟨id, entered, loading⟩
  rw [waiting?_wake] at entered
  split at entered
  · cases entered
  · exact ⟨id, entered, loading⟩

/-- The only new edge leads from `me` to the owner of the module, if it is still loading. -/
theorem Acyclic.wait {r : Registry} (h : r.Acyclic) {me : ThreadId} {k : ModuleId}
    {mine : ModuleId → List ModuleId}
    (free : r.deadlock? me mine (r.waits.length + 1) k [] = none) : (r.wait me k).Acyclic := by
  by_cases held : ∃ owner, r.cell? k = some (.loading owner)
  · obtain ⟨owner, held⟩ := held
    have back := not_reaches_of_deadlock? h _ held (.singleton owner) (by simp) free
    have more : ∀ a b, (r.wait me k).BlockedBy a b → r.BlockedBy a b ∨ a = me ∧ b = owner := by
      rintro a b ⟨id, entered, loading⟩
      rw [waiting?_wait] at entered
      rw [cell?_wait] at loading
      split at entered
      · cases entered
        rw [held] at loading
        cases loading
        exact .inr ⟨‹_›, rfl⟩
      · exact .inl ⟨id, entered, loading⟩
    intro a cycle
    obtain old | ⟨there, onward⟩ := transGen_through more cycle
    · exact h a old
    · exact back (onward.trans there)
  · refine h.mono fun a b => ?_
    rintro ⟨id, entered, loading⟩
    rw [waiting?_wait] at entered
    split at entered
    · cases entered
      exact absurd ⟨b, loading⟩ held
    · exact ⟨id, entered, loading⟩

theorem acyclic_empty (recorder : Recorder) : (Registry.empty recorder).Acyclic := by
  intro a cycle
  obtain ⟨_, ⟨_, waits, _⟩, _⟩ := TransGen.head'_iff.mp cycle
  cases waits

end Registry

namespace Crew.Coherent

variable {c : Crew} {me : ThreadId} {r : Registry} {t : Thread}

theorem waiting_claimed (h : c.Coherent) {a : ThreadId} {id : ModuleId}
    (waits : c.registry.waiting? a = some id) : id ∈ c.registry.claimed := by
  rw [h.waits a] at waits
  refine (h.seen a id ?_).1
  cases control : (c.threads a).control <;>
    simp only [Thread.waitsFor?, Thread.sees?, control] at waits ⊢ <;>
    first | exact waits | cases waits

/-- No step closes a circle of waits. -/
theorem acyclic_put (h : c.Coherent) (acyclic : c.registry.Acyclic)
    (effect : Effect me c.registry (c.threads me) r t) : r.Acyclic := by
  cases effect with
  | quiet cells waits => exact acyclic.congr cells waits
  | claim k new cells waits =>
    exact (acyclic.claim new h.waiting_claimed me).congr cells waits
  | publish k o cells waits => exact (acyclic.publish k o).congr cells waits
  | wake _ _ _ _ _ next =>
    rw [next]
    exact acyclic.wake me
  | wait stack k here there next free =>
    rw [next]
    exact acyclic.wait free

end Crew.Coherent
end ModuleSystem
