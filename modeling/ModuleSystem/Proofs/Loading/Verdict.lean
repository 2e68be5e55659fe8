import Mathlib.Data.List.Rotate
import ModuleSystem.Proofs.Loading.Alone
import ModuleSystem.Proofs.Loading.Cycle

/-! A module comes to its outcome by itself, or it leads into a cycle. There is one cycle at most
that it leads into, although it may be told from any of its modules on. -/

namespace ModuleSystem

open Relation (ReflTransGen TransGen)

section

variable {R S : ModuleId → ModuleId → Prop} {a b x y : ModuleId} {l l' : List ModuleId}

/-- A path from `a` through `l` back to `a` that meets each of its modules once. -/
structure Ring (R : ModuleId → ModuleId → Prop) (a : ModuleId) (l : List ModuleId) : Prop where
  once : (a :: l).Nodup
  linked : (a :: l ++ [a]).IsChain R

namespace Ring

/-- A ring can be told from any of its modules on. -/
theorem rotate (h : Ring R a l) (mem : b ∈ a :: l) : ∃ l', Ring R b l' ∧ (b :: l') ~r (a :: l) := by
  obtain ⟨before, after, split⟩ := List.append_of_mem mem
  have turned : (b :: after ++ before) ~r (a :: l) := by
    rw [split]
    exact List.isRotated_append
  refine ⟨after ++ before, ⟨turned.nodup_iff.mpr h.once, ?_⟩, turned⟩
  have linked := h.linked
  rw [split] at linked
  cases before with
  | nil =>
    obtain ⟨rfl, -⟩ := List.cons.inj split
    simpa using linked
  | cons c before =>
    obtain ⟨rfl, -⟩ := List.cons.inj split
    have path : ((a :: before) ++ b :: (after ++ [a])).IsChain R := by simpa using linked
    obtain ⟨first, second⟩ := List.isChain_split.mp path
    have joined : ((b :: after) ++ a :: (before ++ [b])).IsChain R :=
      List.isChain_split.mpr ⟨second, first⟩
    simpa using joined

theorem mem_of_step (unique : Relator.RightUnique R) (h : Ring R a l) (mem : x ∈ a :: l)
    (step : R x y) : y ∈ a :: l := by
  obtain ⟨l', ring, turned⟩ := h.rotate mem
  rw [← turned.mem_iff]
  have linked := ring.linked
  cases l' with
  | nil =>
    have own : R x x := (List.isChain_cons_cons.mp linked).1
    rw [unique step own]
    exact List.mem_cons_self
  | cons z rest =>
    have next : R x z := (List.isChain_cons_cons.mp linked).1
    rw [unique step next]
    simp

theorem mem_of_reach (unique : Relator.RightUnique R) (h : Ring R a l) (mem : x ∈ a :: l)
    (reach : ReflTransGen R x y) : y ∈ a :: l := by
  induction reach with
  | refl => exact mem
  | tail _ step ih => exact h.mem_of_step unique ih step

end Ring

/-- Where each step is determined, there is one path at most to the next time that `b` is met. -/
theorem path_unique (unique : Relator.RightUnique R) (h : (x :: l ++ [b]).IsChain R)
    (h' : (x :: l' ++ [b]).IsChain R) (outside : b ∉ l) (outside' : b ∉ l') : l = l' := by
  induction l generalizing x l' with
  | nil =>
    have step : R x b := (List.isChain_cons_cons.mp h).1
    cases l' with
    | nil => rfl
    | cons z rest =>
      have first : R x z := (List.isChain_cons_cons.mp h').1
      rw [unique step first] at outside'
      simp at outside'
  | cons y rest ih =>
    obtain ⟨step, onward⟩ := List.isChain_cons_cons.mp h
    cases l' with
    | nil =>
      have last : R x b := (List.isChain_cons_cons.mp h').1
      rw [unique last step] at outside
      simp at outside
    | cons z rest' =>
      obtain ⟨first, onward'⟩ := List.isChain_cons_cons.mp h'
      obtain rfl := unique step first
      rw [List.mem_cons, not_or] at outside outside'
      rw [ih onward onward' outside.2 outside'.2]

namespace Ring

theorem same (unique : Relator.RightUnique R) (reach : ReflTransGen R x a)
    (reach' : ReflTransGen R x b) (h : Ring R a l) (h' : Ring R b l') :
    (a :: l) ~r (b :: l') := by
  wlog ab : ReflTransGen R a b generalizing a b l l'
  · have ba := (ReflTransGen.total_of_right_unique unique reach reach').resolve_left ab
    exact (this reach' reach h' h ba).symm
  obtain ⟨l'', ring, turned⟩ := h.rotate (h.mem_of_reach unique List.mem_cons_self ab)
  have outside := (List.nodup_cons.mp ring.once).1
  have outside' := (List.nodup_cons.mp h'.once).1
  rw [path_unique unique ring.linked h'.linked outside outside'] at turned
  exact turned.symm

end Ring

theorem Ring.transGen (h : Ring R a l) (mem : x ∈ a :: l) : TransGen R x x := by
  obtain ⟨l', ring, _⟩ := h.rotate mem
  exact transGen_last ring.linked List.mem_cons_self

end

/-- The module `id` comes to require `q`, and no further. -/
def Stalls (lib : Library) (id q : ModuleId) : Prop := Leans lib id q ∧ ∀ o, ¬Settles lib q o

section

variable {lib : Library} {id first : ModuleId} {more : List ModuleId} {o o' : Outcome}

theorem Stalls.rightUnique : Relator.RightUnique (Stalls lib) := by
  have ahead : ∀ {id q q' : ModuleId} {b b' : Body} {more more' : List ModuleId},
      ReflTransGen (Advances (Settles lib) id) (.running b) (.running b') →
      b.pending = q :: more → b'.pending = q' :: more' → (∀ o, ¬Settles lib q o) → q = q' := by
    intro id q q' b b' more more' path pending pending' never
    obtain same | ⟨y, step, _⟩ := path.cases_head
    · cases same
      exact (List.cons.inj (pending.symm.trans pending')).1
    · obtain ⟨o, settles⟩ := step.needs pending
      exact absurd settles (never o)
  rintro id q q' ⟨⟨b, more, come, pending⟩, never⟩ ⟨⟨b', more', come', pending'⟩, never'⟩
  obtain path | path := come.linked come'
  · exact ahead path pending pending' never
  · exact (ahead path pending' pending never').symm

theorem not_loop_of_acc (acc : Acc (Function.swap (Leans lib)) id) :
    ¬TransGen (Leans lib) id id := by
  have round := acc.transGen
  clear acc
  induction round with
  | intro id _ ih =>
    intro loop
    exact ih id (Relation.transGen_swap.mpr loop) loop

/-- A module that leads into a cycle does not come to an outcome. -/
theorem Settles.no_loop (h : Settles lib id o) (reach : ReflTransGen (Leans lib) id first) :
    ¬TransGen (Leans lib) first first := by
  refine not_loop_of_acc ?_
  induction reach with
  | refl => exact h.acc
  | tail _ step ih => exact ih.inv step

theorem Stalls.of_reach (reach : ReflTransGen (Leans lib) id first)
    (loop : TransGen (Leans lib) first first) : ReflTransGen (Stalls lib) id first := by
  induction reach using ReflTransGen.head_induction_on with
  | refl => exact .refl
  | head step rest ih => exact .head ⟨step, fun o settles => settles.no_loop rest loop⟩ ih

theorem Stalls.of_ring (ring : Ring (Leans lib) first more) : Ring (Stalls lib) first more := by
  refine ⟨ring.once, ring.linked.imp_of_mem_imp fun x y _ mem step => ⟨step, ?_⟩⟩
  have inside : y ∈ first :: more := by simpa [or_comm] using mem
  exact fun o settles => settles.no_loop .refl (ring.transGen inside)

end

/-- What may be told of a module: the outcome that it comes to, or a cycle that it leads into. -/
inductive Verdict (lib : Library) (id : ModuleId) : Outcome → Prop
  | settled {o : Outcome} (settles : Settles lib id o) : Verdict lib id o
  | looped {first : ModuleId} {more : List ModuleId}
      (reach : ReflTransGen (Leans lib) id first) (ring : Ring (Leans lib) first more) :
      Verdict lib id (.error (.cycle (first :: more ++ [first])))

/-- Two closed chains that go round the same cycle, perhaps from another module on. -/
inductive SameCycle : List ModuleId → List ModuleId → Prop
  | turned {a b : ModuleId} {l l' : List ModuleId} (turn : (a :: l) ~r (b :: l')) :
      SameCycle (a :: l ++ [a]) (b :: l' ++ [b])

/-- Outcomes that are the same up to where the telling of a cycle begins. -/
inductive Outcome.Agrees : Outcome → Outcome → Prop
  | same (o : Outcome) : Agrees o o
  | cycle {chain chain' : List ModuleId} (same : SameCycle chain chain') :
      Agrees (.error (.cycle chain)) (.error (.cycle chain'))

theorem Verdict.agrees {lib : Library} {id : ModuleId} {o o' : Outcome} (h : Verdict lib id o)
    (h' : Verdict lib id o') : o.Agrees o' := by
  cases h with
  | settled settles =>
    cases h' with
    | settled settles' =>
      rw [settles.unique settles']
      exact .same _
    | looped reach ring => exact absurd (ring.transGen List.mem_cons_self) (settles.no_loop reach)
  | looped reach ring =>
    have loop := ring.transGen List.mem_cons_self
    cases h' with
    | settled settles' => exact absurd loop (settles'.no_loop reach)
    | looped reach' ring' =>
      have loop' := ring'.transGen List.mem_cons_self
      exact .cycle (.turned (Ring.same Stalls.rightUnique (Stalls.of_reach reach loop)
        (Stalls.of_reach reach' loop') (Stalls.of_ring ring) (Stalls.of_ring ring')))

end ModuleSystem
