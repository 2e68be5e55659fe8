import ModuleSystem.Proofs.Loading.Moments
import ModuleSystem.Proofs.Loading.OrderFree

/-! A repository that is asked last has a say only where all others know nothing. So a thread over a
longer chain takes the steps that it takes over the shorter one, until it has asked for a module
that the shorter one does not find, and such a thread fails. -/

namespace ModuleSystem

/-- At the bottom of the failure, a module was not found. -/
def LoadError.Missing (e : LoadError) : Prop :=
  ∃ path searched, e.rootCause = .notFound path searched

theorem LoadError.Missing.inUnit {e : LoadError} (h : e.Missing) (unit : String) :
    (e.inUnit unit).Missing := by
  obtain ⟨path, searched, cause⟩ := h
  refine ⟨path, searched, ?_⟩
  rw [rootCause_inUnit, cause]

theorem Chain.resolve_append (tree : FileTree) (id : ModuleId) (chain more : Chain) :
    chain.resolve tree id = .ok none ∨
      Chain.resolve tree id (chain ++ more) = chain.resolve tree id := by
  induction chain with
  | nil => exact .inl rfl
  | cons repository rest ih =>
    rw [List.cons_append, resolve, resolve]
    cases repository.locate tree id with
    | error e => exact .inr rfl
    | ok location =>
      cases location with
      | some location => exact .inr rfl
      | none => exact ih

/-- The second surroundings find all that the first ones find, and nothing else differs. -/
structure Surroundings.Longer (s s' : Surroundings) : Prop where
  find : ∀ id, (∃ searched, s.find id = .error (.notFound id searched)) ∨ s'.find id = s.find id
  held : s'.held = s.held
  broken : s'.broken = s.broken

theorem Surroundings.longer_append (files : FileTree) (chain more : Chain)
    (held broken : List String) :
    Longer ⟨files, chain, held, broken⟩ ⟨files, chain ++ more, held, broken⟩ := by
  refine ⟨fun id => ?_, rfl, rfl⟩
  obtain unknown | same := Chain.resolve_append files id chain more
  · left
    refine ⟨chain.describe, ?_⟩
    rw [Surroundings.find, unknown]
  · rw [Surroundings.find, Surroundings.find, same]
    cases located : chain.resolve files id with
    | error e => exact .inr rfl
    | ok location =>
      cases location with
      | some location => exact .inr rfl
      | none => exact .inl ⟨_, rfl⟩

/-- The thread tells, or has told, of a module that was not found. -/
inductive Control.Missing : Control → Prop
  | answer {e : LoadError} (missing : e.Missing) : Missing (.answer (.error e))
  | loaded {e : LoadError} (missing : e.Missing) : Missing (.ended (.loaded (.error e)))
  | ran {scope : Namespace} {e : LoadError} (missing : e.Missing) :
      Missing (.ended (.ran scope (.error e)))

section

variable {s s' : Surroundings} {me : ThreadId} {r r' : Registry} {t t' : Thread}

/-- Nobody on the stack gets over a module that was not found. -/
theorem step_missing (moved : Transition s me r t r' t') (h : t.control.Missing) :
    t'.control.Missing := by
  cases moved with
  | leaveModule unit departs =>
    cases departs with
    | finish | raise => cases h
    | refuse =>
      cases h with
      | answer missing => exact .answer (missing.inUnit _)
  | leaveScript unit departs =>
    cases departs with
    | finish | raise => cases h
    | refuse =>
      cases h with
      | answer missing => exact .ran (missing.inUnit _)
  | tell =>
    cases h with
    | answer missing => exact .loaded missing
  | receive => cases h
  | _ => cases h

/-- Only a thread that looks for a module can tell the two apart, and it does not find it then. -/
theorem step_longer (around : s.Longer s') (me : ThreadId) (r : Registry) (t : Thread) :
    step s' me r t = step s me r t ∨
      ∃ r' t', step s me r t = some (r', t') ∧ t'.control.Missing := by
  obtain ⟨stack, control⟩ := t
  cases control with
  | build id =>
    obtain ⟨searched, missed⟩ | same := around.find id
    · right
      simp only [step, missed]
      exact ⟨_, _, rfl, .answer ⟨id, searched, rfl⟩⟩
    · left
      simp only [step, same]
  | enter =>
    left
    cases stack with
    | nil => rfl
    | cons b below => simp only [step, around.held, around.broken]
  | run | unwind =>
    left
    cases stack <;> rfl
  | answer o =>
    left
    cases stack with
    | nil => rfl
    | cons b below => cases o <;> rfl
  | request | look | park | waiting | ended => exact .inl rfl

theorem runSteps_longer (around : s.Longer s') (me : ThreadId) (n : Nat) (r : Registry)
    (t : Thread) :
    runSteps s' me n r t = runSteps s me n r t ∨ (runSteps s me n r t).2.control.Missing := by
  induction n generalizing r t with
  | zero => exact .inl rfl
  | succ n ih =>
    obtain same | ⟨r', t', moved, missing⟩ := step_longer around me r t
    · rw [runSteps, runSteps, same]
      cases step s me r t with
      | none => exact .inl rfl
      | some next => exact ih next.1 next.2
    · right
      rw [runSteps, moved]
      exact runSteps_keeps (fun moved h => step_missing moved h) n missing

end

namespace Loader

/-- The load of a loader that nobody else is using, over a longer chain. -/
theorem Idle.load_longer {l : Loader} (idle : l.Idle) (files : FileTree) (more : Chain)
    (id : ModuleId) :
    ∃ e, (l.load files id).2 = some e ∧
      ((Control.ended e).Missing ∨
        (({ l with chain := l.chain ++ more } : Loader).load files id).2 = some e) := by
  have idle' : Idle { l with chain := l.chain ++ more } := ⟨idle.rested, idle.unheld, idle.ended⟩
  obtain ⟨m, e, ended, _, told⟩ := idle.load_told files id
  obtain ⟨n, e', ended', _, told'⟩ := idle'.load_told files id
  refine ⟨e, told, ?_⟩
  have longer := Surroundings.longer_append files l.chain more l.held l.broken
  have last := Start.moment_of_ended ended n
  have last' := Start.moment_of_ended ended' m
  rw [Nat.add_comm] at last'
  obtain same | missing := runSteps_longer longer mainThread (m + n) l.registry (.load id)
  · right
    have both := last'.symm.trans (same.trans last)
    obtain rfl : e' = e := by
      injection both with _ threads
      injection threads with _ controls
      exact Control.ended.inj controls
    exact told'
  · left
    rw [Start.moment] at last
    have here : (runSteps (l.surroundings files) mainThread (m + n) l.registry (.load id)).2.control =
        .ended e := congrArg (·.2.control) last
    exact here ▸ missing

/-- Repositories that are asked after all others change no load of a fresh loader, except one that
has failed because a module was not found: what has loaded loads as the same instance, and what has
failed fails in the same way. -/
theorem longer_chain_agrees (chain more : Chain) (recorder : Recorder) (files : FileTree)
    (id : ModuleId) :
    let short := (create chain recorder [] []).load files id
    let long := (create (chain ++ more) recorder [] []).load files id
    ∃ o, short.2 = some (.loaded o) ∧
      (∀ m, o = .ok m → long.2 = some (.loaded (.ok m))) ∧
      ∀ e, o = .error e → ¬e.Missing → long.2 = some (.loaded (.error e)) := by
  intro short long
  have truthful : (create chain recorder [] []).Truthful chain
      (Surroundings.prepare ⟨files, chain, [], []⟩) := Runtime.truthful_create chain _ recorder
  obtain ⟨_, o, told, _⟩ := truthful.load rfl id
  obtain ⟨e, ended, rest⟩ := truthful.idle.load_longer files more id
  obtain rfl : e = .loaded o := Option.some.inj (ended.symm.trans told)
  refine ⟨o, told, ?_, ?_⟩
  · rintro m rfl
    obtain missing | same := rest
    · cases missing
    · exact same
  · rintro e rfl found
    obtain missing | same := rest
    · cases missing with
      | loaded missing => exact absurd missing found
    · exact same

/-- A module whose requirement another directory has as well, and two that require one another
though the other directory has one that does not. -/
theorem longer_chain_agrees_shadowed :
    let source (root name text : String) : Place × FileNode :=
      ([root, "src", name], .file (Utf8.encode text))
    let files : FileTree :=
      ⟨[(["x"], .dir), (["x", "src"], .dir), (["y"], .dir), (["y", "src"], .dir),
        source "x" "a.loam" "[\"require\", \"/b\"]", source "x" "b.loam" "[\"doc\", \"first\"]",
        source "y" "b.loam" "[\"doc\", \"second\"]",
        source "x" "c.loam" "[\"require\", \"/d\"]", source "x" "d.loam" "[\"require\", \"/c\"]",
        source "y" "d.loam" "[\"doc\", \"free\"]"], []⟩
    let a : ModuleId := ⟨"/a", by decide⟩
    let c : ModuleId := ⟨"/c", by decide⟩
    let d : ModuleId := ⟨"/d", by decide⟩
    let short := create [.directory "/x"] .off [] []
    let long := create [.directory "/x", .directory "/y"] .off [] []
    (∃ m, (short.load files a).2 = some (.loaded (.ok m)) ∧
      (long.load files a).2 = some (.loaded (.ok m))) ∧
      (long.load files c).2 = some (.loaded (.error (.cycle [c, d, c]))) := by
  intro source files a c d short long
  have loads : ((short.load files a).2.bind Ending.error?).isNone = true := by decide +kernel
  have cycle : (short.load files c).2.bind Ending.error? = some (.cycle [c, d, c]) := by
    decide +kernel
  constructor
  · obtain ⟨o, told, same, _⟩ := longer_chain_agrees [.directory "/x"] [.directory "/y"] .off files a
    cases o with
    | ok m => exact ⟨m, told, same m rfl⟩
    | error e =>
      rw [told] at loads
      cases loads
  · obtain ⟨o, told, _, same⟩ := longer_chain_agrees [.directory "/x"] [.directory "/y"] .off files c
    rw [told] at cycle
    cases o with
    | ok m => cases cycle
    | error e =>
      obtain rfl : e = .cycle [c, d, c] := Option.some.inj cycle
      apply same _ rfl
      rintro ⟨path, searched, cause⟩
      cases cause

end Loader
end ModuleSystem
