import ModuleSystem.Proofs.Loading.Solo

/-! Next to every run stands the list of its acts: which modules it claims, which sources it has
compiled and which units it starts. The journal tells the same, without the claims and by names
only, and the registry lists the claims. No module is claimed, compiled or started twice. -/

namespace ModuleSystem

open Thread (running)

/-- What a run does with a module or a script. -/
inductive Act where
  | claim (id : ModuleId)
  | compile (unit : BodyUnit) (source : String)
  | start (unit : BodyUnit)

/-- How far a module has come. -/
inductive Stage where
  | claimed
  | compiled
  | started
  deriving DecidableEq

namespace Act

/-- What the journal tells of an act. -/
def events : Act → List Event
  | .claim _ => []
  | .compile _ source => [.compiled source]
  | .start unit => [.started unit.text]

def claimed? : Act → Option ModuleId
  | .claim id => some id
  | _ => none

/-- The module that an act brings a stage further. Scripts may come again and again. -/
def stage? : Act → Option (Stage × ModuleId)
  | .claim id => some (.claimed, id)
  | .compile (.module id) _ => some (.compiled, id)
  | .start (.module id) => some (.started, id)
  | .compile (.script _) _ | .start (.script _) => none

end Act

def compileActs (unit : BodyUnit) (source text : String) : List Act :=
  match Form.compile unit.isModule text with
  | .ok _ => [.compile unit source, .start unit]
  | .error _ => [.compile unit source]

/-- The acts of the next step of a thread. -/
def stepActs (s : Surroundings) (r : Registry) (t : Thread) : List Act :=
  match t.control with
  | .request id =>
    if id ∈ running t.stack then [] else
      match r.cell? id with
      | some _ => []
      | none => [.claim id]
  | .build id =>
    match s.find id with
    | .ok (.source name text) => compileActs (.module id) name text
    | _ => []
  | _ => []

def runActs (s : Surroundings) (me : ThreadId) : Nat → Registry → Thread → List Act
  | 0, _, _ => []
  | fuel + 1, r, t =>
    match step s me r t with
    | some (r', t') => stepActs s r t ++ runActs s me fuel r' t'
    | none => []

theorem Registry.journal_compile (r : Registry) (unit : BodyUnit) (source text : String) :
    (r.compile unit source text).1.journal =
      r.journal ++ (compileActs unit source text).flatMap Act.events := by
  unfold compile compileActs
  cases Form.compile unit.isModule text <;>
    simp [note, instrument, Act.events]

theorem Body.Departs.journal {b : Body} {control : Control} {r r₁ : Registry}
    {result : Except LoadError Unit} (h : b.Departs r control r₁ result) :
    r₁.journal = r.journal := by
  cases h <;> rfl

theorem Body.Departs.no_acts {b : Body} {control : Control} {r r₁ : Registry}
    {result : Except LoadError Unit} (h : b.Departs r control r₁ result) (s : Surroundings)
    (r : Registry) (stack : List Body) : stepActs s r ⟨stack, control⟩ = [] := by
  cases h <;> rfl

/-- The acts of a module that has been claimed. -/
theorem Surroundings.settle_acts {s : Surroundings} {id : ModuleId} {o : Outcome}
    (ready : s.prepare id = .outcome o) (r : Registry) (stack : List Body) :
    (s.noted r id).journal =
        r.journal ++ (stepActs s r ⟨stack, .build id⟩).flatMap Act.events ∧
      (stepActs s r ⟨stack, .build id⟩ = [] ∨
        ∃ source, stepActs s r ⟨stack, .build id⟩ = [.compile (.module id) source]) := by
  unfold noted stepActs
  dsimp only
  cases found : s.find id with
  | error e => simp
  | ok f =>
    cases f with
    | complete m => simp
    | source name text =>
      obtain ⟨e, compiled⟩ := compile_of_outcome ready found
      have acts : compileActs (.module id) name text = [.compile (.module id) name] := by
        simp [compileActs, BodyUnit.isModule, compiled]
      simp [acts, Registry.note, Act.events]

theorem Surroundings.begin_acts {s : Surroundings} {id : ModuleId} {source : String}
    {p : Form.Program} (ready : s.prepare id = .program source p) (r : Registry)
    (stack : List Body) :
    stepActs s r ⟨stack, .build id⟩ =
      [.compile (.module id) source, .start (.module id)] := by
  obtain ⟨text, found, compiled⟩ := find_of_program ready
  simp [stepActs, found, compileActs, BodyUnit.isModule, compiled]

theorem Transition.journal {s : Surroundings} {me : ThreadId} {r r' : Registry} {t t' : Thread}
    (h : Transition s me r t r' t') :
    r'.journal = r.journal ++ (stepActs s r t).flatMap Act.events := by
  cases h with
  | own mine => simp [stepActs, mine]
  | known foreign found => simp [stepActs, foreign, found]
  | claim foreign new => simp [stepActs, foreign, new, Registry.claim, Act.events]
  | settle ready => exact (Surroundings.settle_acts ready r _).1
  | begin ready =>
    rw [Surroundings.begin_acts ready]
    simp [Registry.reported, Registry.note, Registry.instrument, Act.events]
  | leaveModule unit departs | leaveScript unit departs =>
    rw [departs.no_acts]
    simpa [Registry.publish] using departs.journal
  | _ => simp [stepActs, Registry.wait, Registry.wake, Registry.record, Registry.publish]

theorem journal_runSteps (s : Surroundings) (me : ThreadId) (fuel : Nat) (r : Registry)
    (t : Thread) : (runSteps s me fuel r t).1.journal =
      r.journal ++ (runActs s me fuel r t).flatMap Act.events := by
  induction fuel generalizing r t with
  | zero => simp [runSteps, runActs]
  | succ fuel ih =>
    rw [runSteps, runActs]
    cases moved : step s me r t with
    | none => simp
    | some next =>
      dsimp only
      rw [ih, (transition_of_step moved).journal, List.flatMap_append, List.append_assoc]

/-- A list of acts that led to a registry: no module came to a stage twice, only modules that were
claimed have acts, and the registry holds them in the order of their claims. -/
structure Registry.Lists (r : Registry) (log : List Act) : Prop where
  once : (log.filterMap Act.stage?).Nodup
  claimed : ∀ stage id, (stage, id) ∈ log.filterMap Act.stage? → id ∈ r.claimed
  listed : r.claimed = log.filterMap Act.claimed?

namespace Registry.Lists

variable {r r' : Registry} {log acts : List Act} {id : ModuleId}

theorem congr (h : r.Lists log) (keys : r'.claimed = r.claimed) : r'.Lists log := by
  refine ⟨h.once, fun stage id mem => ?_, keys.trans h.listed⟩
  rw [keys]
  exact h.claimed stage id mem

/-- What scripts do does not bring any module a stage further. -/
theorem script (h : r.Lists log) (name source text : String) :
    r.Lists (log ++ compileActs (.script name) source text) := by
  have stages : (compileActs (.script name) source text).filterMap Act.stage? = [] := by
    unfold compileActs
    split <;> rfl
  have claims : (compileActs (.script name) source text).filterMap Act.claimed? = [] := by
    unfold compileActs
    split <;> rfl
  obtain ⟨once, claimed, listed⟩ := h
  constructor
  · simpa [List.filterMap_append, stages] using once
  · simpa [List.filterMap_append, stages] using claimed
  · simpa [List.filterMap_append, claims] using listed

theorem absent (h : r.Lists log) (new : r.cell? id = none) (stage : Stage) :
    (stage, id) ∉ log.filterMap Act.stage? := fun mem =>
  cell?_eq_none_iff.mp new (h.claimed stage id mem)

theorem mem_claim {x : ModuleId} {stage : Stage}
    (mem : (stage, x) ∈ (log ++ [Act.claim id]).filterMap Act.stage?) :
    (stage, x) ∈ log.filterMap Act.stage? ∨ stage = .claimed ∧ x = id := by
  rw [List.filterMap_append, List.mem_append] at mem
  simpa [Act.stage?, eq_comm] using mem

/-- A module that is new to the registry has come to no stage before. -/
theorem claim (h : r.Lists log) (new : r.cell? id = none) (keys : r'.claimed = r.claimed ++ [id]) :
    r'.Lists (log ++ [.claim id]) := by
  refine ⟨?_, fun stage x mem => ?_, ?_⟩
  · rw [List.filterMap_append]
    refine List.nodup_append.mpr ⟨h.once, by simp [Act.stage?], ?_⟩
    rintro ⟨stage, x⟩ old _ fresh rfl
    obtain ⟨rfl, rfl⟩ : stage = .claimed ∧ x = id := by simpa [Act.stage?] using fresh
    exact h.absent new _ old
  · rw [keys, List.mem_append, List.mem_singleton]
    obtain old | ⟨_, same⟩ := mem_claim mem
    · exact .inl (h.claimed stage x old)
    · exact .inr same
  · rw [keys, h.listed]
    simp [Act.claimed?]

/-- A module that was only claimed so far comes to further stages. -/
theorem built (h : r.Lists log) (claimed : id ∈ r.claimed)
    (unbuilt : ∀ stage, (stage, id) ∈ log.filterMap Act.stage? → stage = .claimed)
    (once : (acts.filterMap Act.stage?).Nodup)
    (new : ∀ stage x, (stage, x) ∈ acts.filterMap Act.stage? → x = id ∧ stage ≠ .claimed)
    (none : acts.filterMap Act.claimed? = []) : r.Lists (log ++ acts) := by
  refine ⟨?_, fun stage x mem => ?_, ?_⟩
  · rw [List.filterMap_append, List.nodup_append]
    refine ⟨h.once, once, ?_⟩
    rintro ⟨stage, x⟩ old _ fresh rfl
    obtain ⟨rfl, late⟩ := new stage x fresh
    exact late (unbuilt stage old)
  · rw [List.filterMap_append, List.mem_append] at mem
    obtain old | fresh := mem
    · exact h.claimed stage x old
    · rwa [(new stage x fresh).1]
  · rw [h.listed, List.filterMap_append, none, List.append_nil]

end Registry.Lists

/-- The same while a thread runs. The module that it is to build was only claimed so far. -/
structure Logged (log : List Act) (r : Registry) (t : Thread) : Prop where
  lists : r.Lists log
  unbuilt : ∀ stage id, t.control = .build id → (stage, id) ∈ log.filterMap Act.stage? →
    stage = .claimed

theorem Registry.Lists.logged {r r' : Registry} {log : List Act} {t : Thread} (h : r.Lists log)
    (keys : r'.claimed = r.claimed) (free : ∀ id, t.control ≠ .build id) : Logged log r' t :=
  ⟨h.congr keys, fun _ id here => absurd here (free id)⟩

theorem Transition.logged {s : Surroundings} {me : ThreadId} {r r' : Registry} {t t' : Thread}
    {log : List Act} (h : Transition s me r t r' t')
    (coherent : (Crew.solo r me t).Coherent) (logged : Logged log r t) :
    Logged (log ++ stepActs s r t) r' t' := by
  have claimed : ∀ id, t.control = .build id → id ∈ r.claimed := by
    intro id here
    refine Registry.mem_claimed_iff.mpr ⟨.loading me, ?_⟩
    refine (coherent.owned me id).mpr ?_
    rw [Crew.threads_solo, Thread.claims, here]
    exact List.mem_cons_self
  obtain ⟨lists, unbuilt⟩ := logged
  cases h with
  | own mine =>
    simp only [stepActs, mine, if_pos, List.append_nil]
    exact lists.logged rfl (by simp)
  | known foreign found =>
    simp only [stepActs, foreign, found, if_false, List.append_nil]
    exact lists.logged rfl (by simp)
  | @claim stack id foreign new =>
    have acts : stepActs s r ⟨stack, .request id⟩ = [.claim id] := by simp [stepActs, foreign, new]
    rw [acts]
    refine ⟨lists.claim new (Registry.claimed_claim _ _ _), fun stage x here mem => ?_⟩
    cases here
    obtain old | ⟨same, _⟩ := Registry.Lists.mem_claim mem
    · exact absurd old (lists.absent new stage)
    · exact same
  | @settle stack id o ready =>
    have keys : ((s.noted r id).publish id o).claimed = r.claimed := by
      rw [Registry.claimed_publish, Registry.claimed_congr (s.noted_quiet r id).1]
    obtain none | ⟨source, one⟩ := (Surroundings.settle_acts ready r stack).2
    · rw [none, List.append_nil]
      exact lists.logged keys (by simp)
    · rw [one]
      have built : r.Lists (log ++ [.compile (.module id) source]) := by
        refine lists.built (claimed id rfl) (fun stage => unbuilt stage id rfl)
          (by simp [Act.stage?]) (fun stage x mem => ?_) (by simp [Act.claimed?])
        obtain ⟨rfl, rfl⟩ : stage = .compiled ∧ x = id := by simpa [Act.stage?] using mem
        exact ⟨rfl, by simp⟩
      exact built.logged keys (by simp)
  | @begin stack id source p ready =>
    rw [Surroundings.begin_acts ready]
    have built : r.Lists (log ++ [.compile (.module id) source, .start (.module id)]) := by
      refine lists.built (claimed id rfl) (fun stage => unbuilt stage id rfl)
        (by simp [Act.stage?]) (fun stage x mem => ?_) (by simp [Act.claimed?])
      simp only [Act.stage?, List.filterMap_cons, List.filterMap_nil, List.mem_cons,
        List.not_mem_nil, or_false, Prod.mk.injEq] at mem
      obtain ⟨rfl, rfl⟩ | ⟨rfl, rfl⟩ := mem <;> exact ⟨rfl, by simp⟩
    exact built.logged rfl (by simp)
  | leaveModule unit departs =>
    rw [departs.no_acts, List.append_nil]
    refine lists.logged ?_ (by simp)
    rw [Registry.claimed_publish, Registry.claimed_congr departs.quiet.1]
  | leaveScript unit departs =>
    rw [departs.no_acts, List.append_nil]
    exact lists.logged (Registry.claimed_congr departs.quiet.1) (by simp)
  | abandonModule =>
    simp only [stepActs, List.append_nil]
    exact lists.logged (Registry.claimed_publish _ _ _) (by simp)
  | _ =>
    simp only [stepActs, List.append_nil]
    exact lists.logged rfl (by simp)

theorem logged_runSteps {s : Surroundings} {me : ThreadId} {r : Registry} {t : Thread}
    {log : List Act} (fuel : Nat) (coherent : (Crew.solo r me t).Coherent)
    (logged : Logged log r t) :
    Logged (log ++ runActs s me fuel r t) (runSteps s me fuel r t).1
      (runSteps s me fuel r t).2 := by
  induction fuel generalizing r t log with
  | zero => simpa [runActs, runSteps] using logged
  | succ fuel ih =>
    rw [runSteps, runActs]
    cases moved : step s me r t with
    | none => simpa using logged
    | some next =>
      have moved := transition_of_step moved
      dsimp only
      rw [← List.append_assoc]
      exact ih (coherent.move_solo moved) (moved.logged coherent logged)

/-- A registry at rest, the acts that led there, and what the journal tells of them. -/
structure Registry.Accounts (r : Registry) (log : List Act) : Prop where
  lists : r.Lists log
  journal : r.journal = log.flatMap Act.events

theorem Registry.Accounts.run {r : Registry} {log : List Act} {s : Surroundings} {me : ThreadId}
    {t : Thread} {goal : Option ModuleId} (h : r.Accounts log) (rested : r.Rested)
    (begins : t.Begins goal) (fuel : Nat) :
    (runSteps s me fuel r t).1.Accounts (log ++ runActs s me fuel r t) := by
  have unbuilt : ∀ id, t.control ≠ .build id := by
    intro id here
    cases begins <;> cases here
  have logged : Logged log r t := h.lists.logged rfl unbuilt
  have after := logged_runSteps (s := s) fuel (begins.coherent rested me) logged
  refine ⟨after.lists, ?_⟩
  rw [journal_runSteps, h.journal, List.flatMap_append]

end ModuleSystem
