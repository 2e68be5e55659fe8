import ModuleSystem.Proofs.Loading.Transition

/-! The bodies of a thread hang together: each of them waits for the module whose body runs above
it. Every step keeps that, whatever the registry holds.

`goal` is the module that a thread was started to load; a thread that runs a script has none. -/

namespace ModuleSystem

open Thread (running)

/-- The module `id` is what the innermost body waits for; below all bodies it is the goal. -/
def Asks (goal : Option ModuleId) (id : ModuleId) : List Body → Prop
  | [] => goal = some id
  | b :: _ => ∃ more, b.pending = id :: more

/-- Each body waits for the module of the one above it. -/
def Nested (goal : Option ModuleId) : List Body → Prop
  | [] => True
  | b :: below =>
    match b.unit with
    | .module id => Asks goal id below ∧ Nested goal below
    | .script _ => below = [] ∧ goal = none

/-- Loads end with an outcome, scripts with the namespace that they leave. -/
def Ending.Fits (goal : Option ModuleId) : Ending → Prop
  | .loaded _ => goal ≠ none
  | .ran .. | .broken (some _) => goal = none
  | .broken none => True

namespace Control

def Fits (goal : Option ModuleId) (stack : List Body) : Control → Prop
  | .request id | .look id | .park id | .waiting id | .build id => Asks goal id stack
  | .enter => ∃ b below, stack = b :: below ∧ b.pending = []
  | .run => stack ≠ []
  | .answer _ => ∃ id, Asks goal id stack
  | .unwind => stack = [] → goal ≠ none
  | .ended e => stack = [] ∧ e.Fits goal

end Control

namespace Thread

structure Valid (goal : Option ModuleId) (t : Thread) : Prop where
  nested : Nested goal t.stack
  control : t.control.Fits goal t.stack

theorem valid_load (id : ModuleId) : (Thread.load id).Valid (some id) := ⟨trivial, rfl⟩

theorem valid_script {b : Body} {name : String} (unit : b.unit = .script name)
    (noPending : b.pending = []) : (Thread.body b).Valid none := by
  refine ⟨?_, b, [], rfl, noPending⟩
  simp [Thread.body, Nested, unit]

end Thread

theorem Nested.of_module {goal : Option ModuleId} {b : Body} {below : List Body} {id : ModuleId}
    (h : Nested goal (b :: below)) (unit : b.unit = .module id) :
    Asks goal id below ∧ Nested goal below := by
  simpa only [Nested, unit] using h

theorem Nested.of_script {goal : Option ModuleId} {b : Body} {below : List Body} {name : String}
    (h : Nested goal (b :: below)) (unit : b.unit = .script name) : below = [] ∧ goal = none := by
  simpa only [Nested, unit] using h

/-- Bodies of the same unit may stand for one another at the top. -/
theorem Nested.of_unit_eq {goal : Option ModuleId} {b b' : Body} {below : List Body}
    (h : Nested goal (b :: below)) (same : b'.unit = b.unit) : Nested goal (b' :: below) := by
  simpa only [Nested, same] using h

namespace Form

def Statement.required : Statement → List ModuleId
  | .require paths => paths
  | _ => []

/-- The modules that a program requires, in the order of its forms. -/
def Program.required (p : Program) : List ModuleId := p.flatMap (·.statement.required)

end Form

namespace Body

/-- The modules that a body has yet to require. -/
def wants (b : Body) : List ModuleId := b.pending ++ Form.Program.required b.rest

/-- A form that runs leaves the unit alone, and what it requires becomes pending. -/
theorem perform_spec {b b' : Body} {form : Form.Located} {rest : Form.Program}
    (noPending : b.pending = []) (h : { b with rest }.perform form = .ok b') :
    b'.unit = b.unit ∧ b'.source = b.source ∧ b'.rest = rest ∧
      b'.pending = form.statement.required := by
  unfold perform at h
  cases kind : form.statement with
  | require | provide | doc =>
    simp only [kind] at h
    cases h
    exact ⟨rfl, rfl, rfl, by simp [Form.Statement.required, noPending]⟩
  | define name e | raise e | expr e =>
    simp only [kind, bind, Except.bind] at h
    split at h
    · cases h
    · cases h
      try exact ⟨rfl, rfl, rfl, noPending⟩

theorem wants_perform {b b' : Body} {form : Form.Located} {rest : Form.Program}
    (noPending : b.pending = []) (next : b.rest = form :: rest)
    (h : { b with rest }.perform form = .ok b') : b'.wants = b.wants := by
  obtain ⟨_, _, left, pending⟩ := perform_spec noPending h
  simp [wants, left, pending, next, noPending, Form.Program.required]

theorem wants_receive (b : Body) (m : ModuleInstance) : ∀ q ∈ (b.receive m).wants, q ∈ b.wants := by
  intro q
  simp only [wants, receive, List.mem_append]
  exact Or.imp_left List.mem_of_mem_drop

end Body

/-- Every step leaves the stack of a thread in order. -/
theorem Transition.valid {s : Surroundings} {me : ThreadId} {r r' : Registry} {t t' : Thread}
    {goal : Option ModuleId} (h : Transition s me r t r' t') (valid : t.Valid goal) :
    t'.Valid goal := by
  obtain ⟨nested, fits⟩ := valid
  cases h with
  | own | closed => exact ⟨nested, _, fits⟩
  | known | claim | busy | wait => exact ⟨nested, fits⟩
  | seen | wake | settle => exact ⟨nested, _, fits⟩
  | begin => exact ⟨⟨fits, nested⟩, _, _, rfl, rfl⟩
  | snap => exact ⟨nested, by simp [Control.Fits]⟩
  | enter => exact ⟨nested, by simp [Control.Fits]⟩
  | ask next => exact ⟨nested, _, next⟩
  | perform noPending _ done =>
    exact ⟨nested.of_unit_eq (Body.perform_spec noPending done).1, by simp [Control.Fits]⟩
  | leaveModule unit departs =>
    obtain ⟨asked, below⟩ := nested.of_module unit
    exact ⟨below, _, asked⟩
  | leaveScript unit departs => exact ⟨trivial, rfl, (nested.of_script unit).2⟩
  | tell =>
    obtain ⟨id, asked⟩ := fits
    have wanted : goal = some id := asked
    exact ⟨trivial, rfl, by simp [Ending.Fits, wanted]⟩
  | receive => exact ⟨nested.of_unit_eq rfl, by simp [Control.Fits]⟩
  | abandonModule unit =>
    obtain ⟨asked, below⟩ := nested.of_module unit
    refine ⟨below, fun empty => ?_⟩
    subst empty
    have wanted : goal = some _ := asked
    simp [wanted]
  | abandonScript unit => exact ⟨trivial, rfl, (nested.of_script unit).2⟩
  | unwound => exact ⟨trivial, rfl, trivial⟩

/-- A module that has its outcome after a step had it before, or the step goes on with this outcome
to whoever asked for the module, or the body of the module broke off. -/
theorem Transition.published {s : Surroundings} {me : ThreadId} {r r' : Registry} {t t' : Thread}
    {goal : Option ModuleId} (h : Transition s me r t r' t') (valid : t.Valid goal) {id : ModuleId}
    {o : Outcome} (found : r'.cell? id = some (.done o)) :
    r.cell? id = some (.done o) ∨ t'.control = .answer o ∧ Asks goal id t'.stack ∨
      t'.control = .unwind ∧ o = .error (abandoned id) := by
  obtain ⟨nested, fits⟩ := valid
  cases h with
  | claim foreign new =>
    rw [Registry.cell?_claim new] at found
    split at found
    · cases found
    · exact .inl found
  | settle ready =>
    obtain old | ⟨rfl, rfl⟩ := Registry.done_of_publish (s.noted_quiet _ _).1 found
    · exact .inl old
    · exact .inr (.inl ⟨rfl, fits⟩)
  | leaveModule unit departs =>
    obtain old | ⟨rfl, rfl⟩ := Registry.done_of_publish departs.quiet.1 found
    · exact .inl old
    · exact .inr (.inl ⟨rfl, (nested.of_module unit).1⟩)
  | abandonModule unit =>
    obtain old | ⟨rfl, rfl⟩ := Registry.done_of_publish rfl found
    · exact .inl old
    · exact .inr (.inr ⟨rfl, rfl⟩)
  | leaveScript unit departs =>
    rw [Registry.cell?_congr departs.quiet.1] at found
    exact .inl found
  | _ => exact .inl found

end ModuleSystem
