import Mathlib.Logic.Relation
import ModuleSystem.Proofs.Loading.Stack

/-! The life of a module without threads, cells and stacks: its body advances form by form, and what
it requires is known by the lives of the other modules. -/

namespace ModuleSystem

open Relation (ReflTransGen TransGen)

/-- What the repositories make of each module. -/
abbrev Library := ModuleId → Prepared

/-- How far a module has come by itself. -/
inductive Moment where
  | running (b : Body)
  | done (o : Outcome)

/-- The next moment of a module, where `known` tells the outcomes of the modules it requires. -/
inductive Advances (known : ModuleId → Outcome → Prop) (id : ModuleId) : Moment → Moment → Prop
  | perform {b b' : Body} {form : Form.Located} {rest : Form.Program} (noPending : b.pending = [])
      (next : b.rest = form :: rest) (done : { b with rest }.perform form = .ok b') :
      Advances known id (.running b) (.running b')
  | receive {b : Body} {q : ModuleId} {more : List ModuleId} {m : ModuleInstance}
      (next : b.pending = q :: more) (got : known q (.ok m)) :
      Advances known id (.running b) (.running (b.receive m))
  | finish {b : Body} (noPending : b.pending = []) (noRest : b.rest = []) :
      Advances known id (.running b) (.done (b.sealed id))
  | raise {b : Body} {form : Form.Located} {rest : Form.Program} {e : LoadError}
      (noPending : b.pending = []) (next : b.rest = form :: rest)
      (failed : { b with rest }.perform form = .error e) :
      Advances known id (.running b) (.done (.error e))
  | refuse {b : Body} {q : ModuleId} {more : List ModuleId} {e : LoadError}
      (next : b.pending = q :: more) (got : known q (.error e)) :
      Advances known id (.running b) (.done (.error (e.inUnit id.text)))

namespace Advances

variable {known known' : ModuleId → Outcome → Prop} {id : ModuleId} {x y y' : Moment}

theorem mono (h : Advances known id x y) (le : ∀ q o, known q o → known' q o) :
    Advances known' id x y := by
  cases h with
  | perform noPending next done => exact .perform noPending next done
  | receive next got => exact .receive next (le _ _ got)
  | finish noPending noRest => exact .finish noPending noRest
  | raise noPending next failed => exact .raise noPending next failed
  | refuse next got => exact .refuse next (le _ _ got)

/-- Whoever knows the same of the others sees a module advance in the same way. -/
theorem unique (agree : ∀ q o o', known q o → known' q o' → o = o') (h : Advances known id x y)
    (h' : Advances known' id x y') : y = y' := by
  cases h with
  | perform noPending next done => cases h' <;> simp_all
  | finish noPending noRest => cases h' <;> simp_all
  | raise noPending next failed => cases h' <;> simp_all
  | receive next got =>
    cases h' with
    | receive next' got' =>
      obtain ⟨rfl, -⟩ := List.cons.inj (next.symm.trans next')
      cases agree _ _ _ got got'
      rfl
    | refuse next' got' =>
      obtain ⟨rfl, -⟩ := List.cons.inj (next.symm.trans next')
      cases agree _ _ _ got got'
    | perform | finish | raise => simp_all
  | refuse next got =>
    cases h' with
    | receive next' got' =>
      obtain ⟨rfl, -⟩ := List.cons.inj (next.symm.trans next')
      cases agree _ _ _ got got'
    | refuse next' got' =>
      obtain ⟨rfl, -⟩ := List.cons.inj (next.symm.trans next')
      cases agree _ _ _ got got'
      rfl
    | perform | finish | raise => simp_all

/-- A body that requires a module does not advance before the module is known. -/
theorem needs {b : Body} {q : ModuleId} {more : List ModuleId}
    (h : Advances known id (.running b) y) (pending : b.pending = q :: more) : ∃ o, known q o := by
  cases h with
  | receive next got | refuse next got =>
    obtain ⟨rfl, -⟩ := List.cons.inj (pending.symm.trans next)
    exact ⟨_, got⟩
  | perform noPending | finish noPending | raise noPending =>
    rw [noPending] at pending
    cases pending

end Advances

/-- The moments that a module comes to. What is known of other modules is what they come to. -/
inductive Comes (lib : Library) : ModuleId → Moment → Prop
  | found {id : ModuleId} {o : Outcome} (ready : lib id = .outcome o) : Comes lib id (.done o)
  | start {id : ModuleId} {source : String} {p : Form.Program}
      (ready : lib id = .program source p) :
      Comes lib id (.running (.start (.module id) source .empty p))
  | advance {known : ModuleId → Outcome → Prop} {id : ModuleId} {x y : Moment}
      (come : Comes lib id x) (step : Advances known id x y)
      (sound : ∀ q o, known q o → Comes lib q (.done o)) : Comes lib id y

/-- The outcome that a module comes to by itself. -/
def Settles (lib : Library) (id : ModuleId) (o : Outcome) : Prop := Comes lib id (.done o)

/-- The module `id` comes to require `q`. -/
def Leans (lib : Library) (id q : ModuleId) : Prop :=
  ∃ b more, Comes lib id (.running b) ∧ b.pending = q :: more

section

variable {lib : Library} {id : ModuleId} {x y : Moment} {o o' : Outcome}

theorem Comes.step {known : ModuleId → Outcome → Prop} (step : Advances known id x y)
    (sound : ∀ q o, known q o → Comes lib q (.done o)) : Advances (Settles lib) id x y :=
  step.mono sound

theorem eq_of_done (h : ReflTransGen (Advances (Settles lib) id) (.done o) y) : y = .done o := by
  obtain same | ⟨z, step, _⟩ := h.cases_head
  · exact same.symm
  · cases step

theorem Comes.of_outcome (h : Comes lib id x) (ready : lib id = .outcome o) : x = .done o := by
  induction h with
  | found ready' => simp_all
  | start ready' => simp_all
  | advance come step sound ih =>
    rw [ih ready] at step
    cases step

theorem Comes.of_program {source : String} {p : Form.Program} (h : Comes lib id x)
    (ready : lib id = .program source p) :
    ReflTransGen (Advances (Settles lib) id)
      (.running (.start (.module id) source .empty p)) x := by
  induction h with
  | found ready' => simp_all
  | start ready' =>
    rw [ready] at ready'
    cases ready'
    exact .refl
  | advance come step sound ih => exact (ih ready).tail (Comes.step step sound)

/-- Of two moments of a module, one comes after the other. The induction is on how the first one
came about, since this also says how the modules came out that it knows of. -/
theorem Comes.linked (h : Comes lib id x) (h' : Comes lib id y) :
    ReflTransGen (Advances (Settles lib) id) x y ∨
      ReflTransGen (Advances (Settles lib) id) y x := by
  induction h generalizing y with
  | found ready =>
    rw [h'.of_outcome ready]
    exact .inl .refl
  | start ready => exact .inl (h'.of_program ready)
  | @advance known id x x' come step sound ih known_linked =>
    obtain onward | back := ih h'
    · obtain rfl | ⟨z, first, rest⟩ := onward.cases_head
      · exact .inr (.single (Comes.step step sound))
      · have agree : ∀ q o o', known q o → Settles lib q o' → o = o' := by
          intro q o o' knows settles
          obtain same | same := known_linked q o knows settles
          · cases eq_of_done same
            rfl
          · cases eq_of_done same
            rfl
        rw [step.unique agree first]
        exact .inl rest
    · exact .inr (back.tail (Comes.step step sound))

theorem Settles.unique (h : Settles lib id o) (h' : Settles lib id o') : o = o' := by
  obtain same | same := Comes.linked h h'
  · cases eq_of_done same
    rfl
  · cases eq_of_done same
    rfl

/-- All that the moments of a module before `x` require leads on only finitely far. -/
def Grounded (lib : Library) (id : ModuleId) (x : Moment) : Prop :=
  ∀ y, Comes lib id y → ReflTransGen (Advances (Settles lib) id) x y ∨
    ∀ b q more, y = .running b → b.pending = q :: more → Acc (Function.swap (Leans lib)) q

theorem Grounded.acc (h : Grounded lib id (.done o)) : Acc (Function.swap (Leans lib)) id := by
  constructor
  rintro q ⟨b, more, come, pending⟩
  obtain after | acc := h _ come
  · cases eq_of_done after
  · exact acc b q more rfl pending

theorem Comes.grounded (h : Comes lib id x) : Grounded lib id x := by
  induction h with
  | found ready =>
    intro y come
    rw [come.of_outcome ready]
    exact .inl .refl
  | start ready =>
    intro y come
    exact .inl (come.of_program ready)
  | @advance known id x x' come step sound ih known_grounded =>
    intro y come'
    obtain onward | acc := ih y come'
    · obtain rfl | ⟨z, first, rest⟩ := onward.cases_head
      · right
        rintro b q more rfl pending
        obtain ⟨o, knows⟩ := step.needs pending
        exact (known_grounded q o knows).acc
      · left
        have agree : ∀ q o o', known q o → Settles lib q o' → o = o' :=
          fun q o o' knows settles => Settles.unique (sound q o knows) settles
        rwa [step.unique agree first]
    · exact .inr acc

theorem Settles.acc (h : Settles lib id o) : Acc (Function.swap (Leans lib)) id :=
  (Comes.grounded h).acc

end
end ModuleSystem
