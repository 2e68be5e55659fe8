import ModuleSystem.Proofs.Order
import ModuleSystem.Proofs.Repository.SourceFiles
import ModuleSystem.Repository.Chain

namespace ModuleSystem

/-- Errors that say the same, but for what the resource and its repository are called. -/
inductive RepositoryError.Alike : RepositoryError → RepositoryError → Prop
  | read {repository repository' resource resource' : String} (fault : ReadFault) :
      Alike (.read repository resource fault) (.read repository' resource' fault)
  | manifest {origin origin' : String} (reason : String) :
      Alike (.manifest origin reason) (.manifest origin' reason)

theorem RepositoryError.Alike.refl (e : RepositoryError) : e.Alike e := by
  cases e with
  | read repository resource fault => exact .read fault
  | manifest origin reason => exact .manifest reason

theorem RepositoryError.Alike.code {e e' : RepositoryError} (h : e.Alike e') : e.code = e'.code := by
  cases h <;> rfl

/-- The same is read at two locations. -/
inductive Location.Alike : Except RepositoryError Location.Material →
    Except RepositoryError Location.Material → Prop
  | ok (m : Location.Material) : Alike (.ok m) (.ok m)
  | error {e e' : RepositoryError} (same : e.Alike e') : Alike (.error e) (.error e')

theorem Location.Alike.refl (read : Except RepositoryError Location.Material) :
    Location.Alike read read := by
  cases read with
  | ok m => exact .ok m
  | error e => exact .error (.refl e)

/-- Two answers to the question where a module is, by which the same is read. -/
inductive Located (files files' : FileTree) : Except RepositoryError (Option Location) →
    Except RepositoryError (Option Location) → Prop
  | unknown : Located files files' (.ok none) (.ok none)
  | here {l l' : Location} (same : Location.Alike (l.read files) (l'.read files')) :
      Located files files' (.ok (some l)) (.ok (some l'))
  | error {e e' : RepositoryError} (same : e.Alike e') :
      Located files files' (.error e) (.error e')

/-- Repositories with the same modules, each of them with files of its own. -/
def Repository.Alike (files files' : FileTree) (repository repository' : Repository) : Prop :=
  ∀ id, Located files files' (repository.locate files id) (repository'.locate files' id)

namespace ResourceRepository

variable {resources : Fields (List UInt8)} {r : ResourceRepository}
  {sources : ModuleId → Option (List UInt8)} {id : ModuleId}

/-- A repository that was opened over resources in memory, or over those of an archive. -/
inductive Opens (resources : Fields (List UInt8)) (r : ResourceRepository) : Prop
  | memory {identity : String} (opened : ofResources identity resources = .ok r)
  | archive {origin : String} {bytes : List UInt8} (files : Archive.files bytes = .ok resources)
      (opened : ofArchive origin bytes = .ok r)

/-- Resources with a manifest that lists some modules and no other ones. -/
def Lists (resources : Fields (List UInt8)) (sources : ModuleId → Option (List UInt8)) : Prop :=
  ∃ text m, resources.get? Manifest.resourceName = some text ∧ Manifest.parse text = .ok m ∧
    ∀ id, id ∈ m.modules ↔ sources id ≠ none

/-- What is known of a module by a repository that lists it with its source. -/
structure Holds (r : ResourceRepository) (sources : ModuleId → Option (List UInt8)) : Prop where
  listed : ∀ id, id ∈ r.modules ↔ sources id ≠ none
  bytes : ∀ id bytes, sources id = some bytes → r.resources.get? (r.resourceName id) = some bytes

theorem Opens.of_resources (h : Opens resources r) :
    ∃ identity, ofResources identity resources = .ok r := by
  cases h with
  | memory opened => exact ⟨_, opened⟩
  | @archive origin bytes files opened =>
    rw [ofArchive, files] at opened
    exact ⟨_, opened⟩

theorem Opens.holds (h : Opens resources r) (lists : Lists resources sources)
    (bytes : ∀ id bytes, sources id = some bytes →
      resources.get? (r.resourceName id) = some bytes) : r.Holds sources := by
  obtain ⟨identity, opened⟩ := h.of_resources
  obtain ⟨text, m, manifest, parsed, listed⟩ := lists
  rw [ofResources, manifest] at opened
  simp only [parsed, Except.ok.injEq] at opened
  subst opened
  exact ⟨fun id => mem_idSet.trans (listed id), bytes⟩

theorem Holds.locate (h : r.Holds sources) (id : ModuleId) :
    r.locate id = .ok ((sources id).map fun bytes =>
      ⟨r.identity, r.identity ++ "!/" ++ r.resourceName id, .bytes bytes⟩) := by
  rw [ResourceRepository.locate]
  cases known : sources id with
  | none =>
    have unlisted : ¬r.modules.contains id = true := by
      rw [List.contains_iff_mem, h.listed, known]
      exact fun differs => differs rfl
    rw [if_neg unlisted]
    rfl
  | some bytes =>
    have listed : r.modules.contains id = true := by
      rw [List.contains_iff_mem, h.listed, known]
      exact Option.some_ne_none bytes
    rw [if_pos listed]
    simp only [h.bytes id bytes known]
    rfl

end ResourceRepository

namespace Repository

variable {files files' : FileTree}

theorem decode_alike (l l' : Location) (bytes : List UInt8) :
    Location.Alike (do return .text (← l.decode bytes)) (do return .text (← l'.decode bytes)) := by
  rw [Location.decode, Location.decode]
  cases Utf8.decode bytes with
  | ok text => exact .ok (.text text)
  | error fault => exact .error (.read (.encoding fault))

/-- A directory and a resource repository with the same sources. -/
theorem alike_of_sources {root : String} {top : Place} {r : ResourceRepository}
    {sources : ModuleId → Option (List UInt8)} (directory : Directory.Holds files root top sources)
    (resources : r.Holds sources) : Alike files files' (.directory root) (.resources r) := by
  intro id
  change Located files files' (.ok (Directory.locate root files id)) (r.locate id)
  rw [directory.locate, resources.locate]
  cases known : sources id with
  | none => exact .unknown
  | some bytes =>
    apply Located.here
    simp only [Location.read, directory.read known]
    exact decode_alike _ _ bytes

theorem located_of_bytes {located : Except RepositoryError (Option Location)}
    (inside : ∀ l, located = .ok (some l) → ∀ path, l.content ≠ .file path) :
    Located files files' located located := by
  cases located with
  | error e => exact .error (.refl e)
  | ok found =>
    cases found with
    | none => exact .unknown
    | some l =>
      have same : l.read files = l.read files' := by
        rw [Location.read, Location.read]
        cases content : l.content with
        | file path => exact absurd content (inside l rfl path)
        | prebuilt | bytes => rfl
      apply Located.here
      rw [same]
      exact .refl _

theorem content_of_resources {r : ResourceRepository} {id : ModuleId} {l : Location}
    (located : r.locate id = .ok (some l)) (path : String) : l.content ≠ .file path := by
  rw [ResourceRepository.locate] at located
  split at located
  · dsimp only at located
    split at located
    · cases located
      exact fun file => by cases file
    · cases located
  · cases located

/-- A repository that is no directory does not depend on the files. -/
theorem alike_self {repository : Repository} (inside : ∀ root, repository ≠ .directory root) :
    Alike files files' repository repository := by
  intro id
  cases repository with
  | directory root => exact absurd rfl (inside root)
  | resources r => exact located_of_bytes fun l located => content_of_resources located
  | bootstrap library =>
    apply located_of_bytes
    intro l located path
    simp only [locate, Bootstrap.locate] at located
    split at located
    · cases located
      exact fun file => by cases file
    · exact content_of_resources located path

end Repository

theorem Chain.resolve_alike {files files' : FileTree} {chain chain' : Chain}
    (same : List.Forall₂ (Repository.Alike files files') chain chain') (id : ModuleId) :
    Located files files' (chain.resolve files id) (chain'.resolve files' id) := by
  induction same with
  | nil => exact .unknown
  | @cons repository repository' rest rest' first _ ih =>
    rw [Chain.resolve, Chain.resolve]
    have located := first id
    generalize repository.locate files id = answer at located
    generalize repository'.locate files' id = answer' at located
    cases located with
    | unknown => exact ih
    | here same => exact .here same
    | error same => exact .error same

end ModuleSystem
