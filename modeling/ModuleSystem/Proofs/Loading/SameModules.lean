import ModuleSystem.Proofs.Loading.CycleErrors
import ModuleSystem.Proofs.Loading.Lockstep

namespace ModuleSystem

/-- Operations that load one module. -/
inductive Call.Loads : Call → Prop
  | load (id : ModuleId) : Loads (.load id)
  | loadPath (path : String) : Loads (.loadPath path)
  | loadWithin (id : ModuleId) (milliseconds : Nat) : Loads (.loadWithin id milliseconds)

/-- Replies that differ in nothing but the names of sources and repositories. -/
inductive Reply.Alike : Reply → Reply → Prop
  | ending {e e' : Ending} (same : e.Alike e') : Alike (.ending (some e)) (.ending (some e'))
  | outcome {o o' : Outcome} (same : Outcome.Alike o o') : Alike (.outcome o) (.outcome o')

theorem Reply.Alike.outcome? {reply reply' : Reply} (h : reply.Alike reply') {o : Outcome}
    (told : reply.outcome? = some o) : ∃ o', reply'.outcome? = some o' ∧ Outcome.Alike o o' := by
  cases h with
  | outcome same =>
    cases told
    exact ⟨_, rfl, same⟩
  | ending same =>
    cases same with
    | loaded same =>
      cases told
      exact ⟨_, rfl, same⟩
    | ran | broken => cases told

/-- Both tell an outcome, and the outcomes are alike. -/
def Reply.SameOutcome (reply reply' : Reply) : Prop :=
  ∃ o o', reply.outcome? = some o ∧ reply'.outcome? = some o' ∧ Outcome.Alike o o'

theorem Ending.Alike.outcomeOf {e e' : Ending} (h : e.Alike e') (id : ModuleId) :
    Outcome.Alike (Loader.outcomeOf id e) (Loader.outcomeOf id e') := by
  cases h with
  | loaded same => exact same
  | ran | broken => exact .error (.refl _)

namespace Start

variable {start start' : Start} {s s' : Surroundings}

theorem moment_alike (around : s.Alike s') (me : start.me = start'.me)
    (cells : start.registry.Alike start'.registry) (thread : start.thread.Alike start'.thread)
    (n : Nat) : Alike (start.moment s n) (start'.moment s' n) := by
  rw [moment, moment, me]
  exact runSteps_alike around n cells thread

/-- However many steps they take: threads that begin alike end alike. -/
theorem ended_alike (start start' : Start) (around : s.Alike s') (me : start.me = start'.me)
    (cells : start.registry.Alike start'.registry) (thread : start.thread.Alike start'.thread)
    {m n : Nat} {r r' : Registry} {e e' : Ending} (ended : start.moment s m = (r, ⟨[], .ended e⟩))
    (ended' : start'.moment s' n = (r', ⟨[], .ended e'⟩)) : r.Alike r' ∧ e.Alike e' := by
  have both := moment_alike around me cells thread (m + n)
  rw [moment_of_ended ended n, Nat.add_comm, moment_of_ended ended' m] at both
  obtain ⟨registries, _, controls⟩ := both
  cases controls with
  | ended same => exact ⟨registries, same⟩

end Start

namespace Loader

variable {l l' : Loader} {files files' : FileTree}

theorem Truthful.surroundings {chain : Chain} {lib : Library} (h : l.Truthful chain lib)
    (files : FileTree) : l.surroundings files = ⟨files, chain, [], []⟩ := by
  rw [Loader.surroundings, h.fixed.1, h.fixed.2, h.idle.unheld]

theorem load_alike (idle : l.Idle) (idle' : l'.Idle)
    (around : (l.surroundings files).Alike (l'.surroundings files'))
    (cells : l.registry.Alike l'.registry) (id : ModuleId) :
    (l.load files id).1.registry.Alike (l'.load files' id).1.registry ∧
      ∃ e e', (l.load files id).2 = some e ∧ (l'.load files' id).2 = some e' ∧ e.Alike e' := by
  obtain ⟨_, e, ended, _, told⟩ := idle.load_told files id
  obtain ⟨_, e', ended', _, told'⟩ := idle'.load_told files' id
  obtain ⟨registries, same⟩ := Start.ended_alike ⟨l.registry, mainThread, .load id⟩
    ⟨l'.registry, mainThread, .load id⟩ around rfl cells ⟨.nil, .request id⟩ ended ended'
  exact ⟨registries, e, e', told, told', same⟩

theorem loadWithin_alike (idle : l.Idle) (idle' : l'.Idle)
    (around : (l.surroundings files).Alike (l'.surroundings files'))
    (cells : l.registry.Alike l'.registry) (fresh : l.fresh = l'.fresh) (id : ModuleId)
    (milliseconds : Nat) :
    (l.loadWithin files id milliseconds).1.registry.Alike
        (l'.loadWithin files' id milliseconds).1.registry ∧
      Outcome.Alike (l.loadWithin files id milliseconds).2
        (l'.loadWithin files' id milliseconds).2 := by
  obtain ⟨_, e, ended, _, told⟩ := idle.loadWithin_told files id milliseconds
  obtain ⟨_, e', ended', _, told'⟩ := idle'.loadWithin_told files' id milliseconds
  obtain ⟨registries, same⟩ := Start.ended_alike ⟨l.registry, l.fresh, .load id⟩
    ⟨l'.registry, l'.fresh, .load id⟩ around fresh cells ⟨.nil, .request id⟩ ended ended'
  rw [told, told']
  exact ⟨registries, same.outcomeOf id⟩

end Loader

namespace Runtime

/-- Runtimes between whose operations nobody loads, and that have come to the same. -/
structure Alike (rt rt' : Runtime) : Prop where
  idle : rt.loader.Idle
  idle' : rt'.loader.Idle
  registry : rt.loader.registry.Alike rt'.loader.registry
  fresh : rt.loader.fresh = rt'.loader.fresh

variable {rt rt' : Runtime} {files files' : FileTree} {call : Call}

theorem call_alike (h : rt.Alike rt')
    (around : (rt.loader.surroundings files).Alike (rt'.loader.surroundings files'))
    (loads : call.Loads) : (rt.call files call).1.Alike (rt'.call files' call).1 ∧
      (rt.call files call).2.Alike (rt'.call files' call).2 := by
  have idle := (serves_call h.idle files call).idle
  have idle' := (serves_call h.idle' files' call).idle
  have load : ∀ id, (rt.loader.load files id).1.registry.Alike
      (rt'.loader.load files' id).1.registry ∧
      Reply.Alike (.ending (rt.loader.load files id).2) (.ending (rt'.loader.load files' id).2) := by
    intro id
    obtain ⟨registries, e, e', told, told', same⟩ :=
      Loader.load_alike h.idle h.idle' around h.registry id
    rw [told, told']
    exact ⟨registries, .ending same⟩
  cases loads with
  | load id => exact ⟨⟨idle, idle', (load id).1, h.fresh⟩, (load id).2⟩
  | loadPath path =>
    cases parsed : ModuleId.parse path with
    | ok id =>
      have same : ∀ (rt : Runtime) files, rt.call files (.loadPath path) = rt.call files (.load id) := by
        intro rt files
        simp only [Runtime.call, Loader.loadPath, parsed]
      rw [same, same] at *
      exact ⟨⟨idle, idle', (load id).1, h.fresh⟩, (load id).2⟩
    | error e =>
      have same : ∀ (rt : Runtime) files, rt.call files (.loadPath path) =
          (rt, .ending (some (.loaded (.error (.invalidPath e))))) := by
        intro rt files
        simp only [Runtime.call, Loader.loadPath, parsed]
      rw [same, same]
      exact ⟨h, .ending (.loaded (.error (.refl _)))⟩
  | loadWithin id milliseconds =>
    obtain ⟨registries, same⟩ :=
      Loader.loadWithin_alike h.idle h.idle' around h.registry h.fresh id milliseconds
    have next : ∀ {l : Loader}, l.Idle → ∀ files,
        (l.loadWithin files id milliseconds).1.fresh = l.fresh + 1 := by
      intro l idle files
      change (l.spawn files id).1.fresh = _
      rw [idle.spawn_eq]
    refine ⟨⟨idle, idle', registries, ?_⟩, .outcome same⟩
    exact (next h.idle files).trans ((congrArg (· + 1) h.fresh).trans (next h.idle' files').symm)

theorem alike_create (chain chain' : Chain) (recorder recorder' : Recorder) (broken : List String) :
    Alike (create chain recorder broken) (create chain' recorder' broken) :=
  ⟨idle_create .., idle_create .., ⟨fun _ => .none, rfl⟩, rfl⟩

section

variable {chain chain' : Chain} {lib lib' : Library}

/-- While nothing breaks off, every load is answered with an outcome. -/
theorem loads_answered (h : rt.loader.Truthful chain lib)
    (holds : Surroundings.prepare ⟨files, chain, [], []⟩ = lib) (loads : call.Loads) :
    (rt.call files call).1.loader.Truthful chain lib ∧
      ∃ o, (rt.call files call).2.outcome? = some o := by
  have plain : ∀ id module, call ≠ .register id module := by
    rintro id module rfl
    cases loads
  obtain ⟨after, told⟩ := call_truthful h holds plain
  refine ⟨after, ?_⟩
  cases loads with
  | load id | loadWithin id =>
    obtain ⟨o, told, _⟩ := told id rfl
    exact ⟨o, told⟩
  | loadPath path =>
    cases parsed : ModuleId.parse path with
    | ok id =>
      obtain ⟨o, told, _⟩ := told id (by rw [Call.target?, parsed]; rfl)
      exact ⟨o, told⟩
    | error e =>
      refine ⟨.error (.invalidPath e), ?_⟩
      simp only [Runtime.call, Loader.loadPath, parsed]
      rfl

theorem replies_alike (chains : List.Forall₂ (Repository.Alike files files') chain chain')
    (h : rt.Alike rt')
    (truthful : rt.loader.Truthful chain (Surroundings.prepare ⟨files, chain, [], []⟩))
    (truthful' : rt'.loader.Truthful chain' (Surroundings.prepare ⟨files', chain', [], []⟩))
    {calls : List Call} (loads : ∀ call ∈ calls, call.Loads) :
    List.Forall₂ Reply.SameOutcome (rt.replies (calls.map (files, ·)))
        (rt'.replies (calls.map (files', ·))) ∧
      (rt.run (calls.map (files, ·))).Alike (rt'.run (calls.map (files', ·))) := by
  induction calls generalizing rt rt' with
  | nil => exact ⟨.nil, h⟩
  | cons call rest ih =>
    obtain ⟨first, later⟩ := List.forall_mem_cons.mp loads
    have around : (rt.loader.surroundings files).Alike (rt'.loader.surroundings files') := by
      rw [truthful.surroundings, truthful'.surroundings]
      exact ⟨Surroundings.find_alike chains, rfl, rfl⟩
    obtain ⟨after, same⟩ := call_alike h around first
    obtain ⟨still, o, told⟩ := loads_answered truthful rfl first
    obtain ⟨o', told', outcomes⟩ := same.outcome? told
    obtain ⟨replies, runs⟩ := ih after still (loads_answered truthful' rfl first).1 later
    exact ⟨.cons ⟨o, o', told, told', outcomes⟩ replies, runs⟩

/-- A loader over a directory that holds the sources of some modules, and one over a resource
repository whose manifest lists the same modules, with the same sources: every sequence of loads is
answered alike, and what becomes of each module is alike. Other repositories may be asked before and
after these, if they are no directories. -/
theorem same_modules {root : String} {top : Place} {sources : ModuleId → Option (List UInt8)}
    {resources : Fields (List UInt8)} {r : ResourceRepository} {first last : Chain} {calls : List Call}
    (directory : Directory.Holds files root top sources)
    (opens : ResourceRepository.Opens resources r)
    (lists : ResourceRepository.Lists resources sources)
    (bytes : ∀ id bytes, sources id = some bytes → resources.get? (r.resourceName id) = some bytes)
    (others : ∀ repository ∈ first ++ last, ∀ root, repository ≠ .directory root)
    (loads : ∀ call ∈ calls, call.Loads) (files' : FileTree) (recorder recorder' : Recorder) :
    let rt := create (first ++ .directory root :: last) recorder []
    let rt' := create (first ++ .resources r :: last) recorder' []
    let ops := calls.map (files, ·)
    let ops' := calls.map (files', ·)
    List.Forall₂ Reply.SameOutcome (rt.replies ops) (rt'.replies ops') ∧
      ∀ id, Option.Rel Outcome.Alike ((rt.run ops).loader.registry.state id).outcome?
        ((rt'.run ops').loader.registry.state id).outcome? := by
  intro rt rt' ops ops'
  have unmoved : ∀ part : Chain, part ⊆ first ++ last →
      List.Forall₂ (Repository.Alike files files') part part := fun part within =>
    List.forall₂_same.mpr fun repository mem =>
      Repository.alike_self (others repository (within mem))
  have chains : List.Forall₂ (Repository.Alike files files') (first ++ .directory root :: last)
      (first ++ .resources r :: last) := by
    apply List.rel_append (unmoved first (List.subset_append_left ..))
    apply List.Forall₂.cons _ (unmoved last (List.subset_append_right ..))
    exact Repository.alike_of_sources directory (opens.holds lists bytes)
  obtain ⟨replies, runs⟩ := replies_alike chains (alike_create _ _ recorder recorder' [])
    (truthful_create _ _ recorder) (truthful_create _ _ recorder') loads
  exact ⟨replies, fun id => runs.registry.state id⟩

/-- One module, which requires another one that is nowhere, in a directory and in memory under a
root of its own. -/
theorem same_modules_missing :
    let text := "[\"require\", \"/c\"]".toUTF8.toList
    let manifest := "\x7b\"version\": 1, \"root\": \"/lib/\", \"modules\": [\"/a\"]\x7d".toUTF8.toList
    let a : ModuleId := ⟨"/a", by decide⟩
    let files : FileTree := ⟨[(["src"], .dir), (["src", "a.loam"], .file text)], []⟩
    let resources : Fields (List UInt8) := [("lib/src/a.loam", text), ("manifest.json", manifest)]
    let r : ResourceRepository := ⟨"memory", "/lib", [a], resources⟩
    ResourceRepository.ofResources "memory" resources = .ok r ∧
      Reply.SameOutcome ((create [.directory "/"] .off []).call files (.load a)).2
        ((create [.resources r] .off []).call files (.load a)).2 := by
  intro text manifest a files resources r
  have parsed : Manifest.parse manifest = .ok ⟨1, "/lib/", [a]⟩ := by decide +kernel
  have name : r.resourceName a = "lib/src/a.loam" := by decide +kernel
  have names : Directory.fileNames a = ["a.loam"] := by decide +kernel
  have opened : ResourceRepository.ofResources "memory" resources = .ok r := by
    have listed : resources.get? Manifest.resourceName = some manifest := rfl
    have root : ResourceRepository.trimSlashesEnd "/lib/" = "/lib" := by decide +kernel
    simp only [ResourceRepository.ofResources, listed, parsed, root]
    rfl
  obtain ⟨sources, all⟩ : ∃ sources : ModuleId → Option (List UInt8),
      ∀ id bytes, sources id = some bytes ↔ id = a ∧ bytes = text := by
    refine ⟨fun id => if id = a then some text else none, fun id bytes => ?_⟩
    simp [eq_comm]
  have wellFormed : files.WellFormed := ⟨by decide +kernel, by decide +kernel⟩
  have directory : Directory.Holds files "/" [] sources := by
    have found : files.find "/" = .ok ([], .dir) := by decide +kernel
    have here : ∀ first names node, files.node? (first :: names) = some node ↔ first = "src" ∧
        (names = [] ∧ node = .dir ∨ names = ["a.loam"] ∧ node = .file text) := by
      intro first names node
      have entry : files.node? (first :: names) = some node ↔ (first :: names, node) ∈ files.entries :=
        FileTree.lookup_eq_some_iff wellFormed.nodup
      rw [entry]
      simp only [files, List.mem_cons, List.not_mem_nil, Prod.mk.injEq, List.cons.injEq]
      tauto
    refine ⟨wellFormed, found, fun path bytes => ?_, fun path target link => ?_,
      fun path node there => ?_⟩
    · simp only [List.nil_append, here, all]
      constructor
      · rintro ⟨_, ⟨_, none⟩ | ⟨rfl, same⟩⟩
        · cases none
        · exact ⟨a, names.symm, rfl, FileNode.file.inj same⟩
      · rintro ⟨_, rfl, rfl, rfl⟩
        exact ⟨trivial, .inr ⟨names, rfl⟩⟩
    · simp [here] at link
    · cases path with
      | nil => simp
      | cons first rest =>
        obtain ⟨rfl, ⟨rfl, _⟩ | ⟨rfl, _⟩⟩ := (here first rest node).mp there <;> decide
  have listed : ∀ id, id ∈ [a] ↔ sources id ≠ none := by
    intro id
    rw [List.mem_singleton, Option.ne_none_iff_exists']
    simp [all]
  have bytes : ∀ id bytes, sources id = some bytes →
      resources.get? (r.resourceName id) = some bytes := by
    intro id bytes known
    obtain ⟨rfl, rfl⟩ := (all id bytes).mp known
    rw [name]
    rfl
  have others : ∀ repository ∈ ([] ++ [] : Chain), ∀ root, repository ≠ .directory root := by
    intro repository none
    cases none
  have loads : ∀ call ∈ [Call.load a], call.Loads := by
    intro call mem
    rw [List.mem_singleton.mp mem]
    exact .load a
  have same := same_modules directory (.memory opened) ⟨manifest, _, rfl, parsed, listed⟩ bytes others
    loads files .off .off
  exact ⟨opened, (List.forall₂_cons.mp same.1).1⟩

end

end Runtime
end ModuleSystem
