import ModuleSystem.Proofs.Repository.Backing
import ModuleSystem.Proofs.Repository.Walking

namespace ModuleSystem

variable {tree : FileTree} {select : ModuleId → Bool} {id : ModuleId}

/-- There is no link below the sources. -/
def Directory.Unlinked (tree : FileTree) (root : String) : Prop :=
  ∀ top, tree.find (sourceDir root) = .ok (top, .dir) →
    ∀ names target, tree.node? (top ++ names) ≠ some (.link target)

theorem Directory.unlinked_of_entries {root : String} (wf : tree.WellFormed)
    (none : ∀ e ∈ tree.entries, ∀ target, e.2 ≠ .link target) : Unlinked tree root := by
  intro top _ names target link
  by_cases above : top ++ names = []
  · rw [above] at link
    cases link
  · have entry : ([] ++ (top ++ names), .link target) ∈ tree.entries := (wf.mem_entries above).mpr link
    exact none _ entry target rfl

/-- Where there are no links, the modules that are found are the ones whose files stand in their
places. -/
theorem Directory.mem_collect_iff_locate {root : String} (wf : tree.WellFormed) (named : tree.Named)
    (unlinked : Unlinked tree root) : id ∈ collect root tree select ↔
      select id = true ∧ ∃ location, locate root tree id = some location := by
  rw [mem_collect_iff wf named, locate_isSome_iff]
  apply and_congr_right
  intro _
  constructor
  · rintro ⟨top, node, found, here, other⟩
    cases node with
    | dir => exact absurd rfl other
    | link target => exact absurd here (unlinked top found _ target)
    | file bytes => exact ⟨_, bytes, find_module wf named found here (by simp)⟩
  · rintro ⟨place, bytes, found⟩
    obtain ⟨_, here⟩ := FileTree.find_eq_ok_iff.mp found
    rw [moduleFile_below, sourceDir] at found
    obtain ⟨top, above, rfl⟩ :=
      FileTree.find_above src_plain (fileNames_ne_nil id) plain_of_fileNames unlinked found
    exact ⟨top, .file bytes, above, here, by simp⟩

theorem ResourceRepository.mem_collect_iff {r : ResourceRepository} :
    id ∈ r.collect select ↔ select id = true ∧ r.locate id ≠ .ok none := by
  rw [collect, List.mem_filter, and_comm, locate]
  apply and_congr_right
  intro _
  rw [← List.contains_iff_mem]
  split
  · next listed =>
    apply iff_of_true listed
    dsimp only
    split <;> simp
  · next unlisted => exact iff_of_false unlisted (by simp)

theorem Bootstrap.mem_collect_iff {library : ResourceRepository} :
    id ∈ collect library select ↔ select id = true ∧ locate library id ≠ .ok none := by
  have listed : id ∈ collect library select ↔
      id ∈ library.collect select ∨ id = kernelId ∧ select id = true := by
    rw [collect]
    split
    · next selected =>
      rw [mem_sortIds, List.mem_append, List.mem_singleton]
      apply or_congr_right
      constructor
      · rintro rfl
        exact ⟨rfl, selected⟩
      · exact And.left
    · next ignored =>
      constructor
      · exact .inl
      · rintro (mem | ⟨rfl, selected⟩)
        · exact mem
        · exact absurd selected ignored
  rw [listed, ResourceRepository.mem_collect_iff, locate]
  by_cases kernel : id = kernelId
  · have known : ∀ l, (Except.ok (some l) : Except RepositoryError (Option Location)) ≠ .ok none := by
      simp
    rw [if_pos kernel]
    constructor
    · rintro (⟨selected, _⟩ | ⟨_, selected⟩) <;> exact ⟨selected, known _⟩
    · rintro ⟨selected, _⟩
      exact .inr ⟨kernel, selected⟩
  · rw [if_neg kernel]
    simp only [kernel, false_and, or_false]

/-- The core library opens. -/
theorem Bootstrap.library_opens : ∃ library, Bootstrap.library = .ok library := by
  have opens : Bootstrap.library.isOk = true := by decide +kernel
  cases opened : Bootstrap.library with
  | ok library => exact ⟨library, rfl⟩
  | error e =>
    rw [opened] at opens
    cases opens

namespace Repository

/-- A repository lists a module if it locates it, or fails to. -/
theorem mem_collect_iff {repository : Repository} (wf : tree.WellFormed) (named : tree.Named)
    (unlinked : ∀ root, repository = .directory root → Directory.Unlinked tree root) :
    id ∈ repository.collect tree select ↔
      select id = true ∧ repository.locate tree id ≠ .ok none := by
  cases repository with
  | directory root =>
    rw [collect, locate, Directory.mem_collect_iff_locate wf named (unlinked root rfl), Ne,
      Except.ok.injEq, ← Ne, ← Option.isSome_iff_ne_none, Option.isSome_iff_exists]
  | resources r => exact ResourceRepository.mem_collect_iff
  | bootstrap library => exact Bootstrap.mem_collect_iff

end Repository

namespace Chain

theorem resolve_eq_none_iff {chain : Chain} :
    chain.resolve tree id = .ok none ↔ ∀ repository ∈ chain, repository.locate tree id = .ok none := by
  induction chain with
  | nil => simp [resolve]
  | cons repository rest ih =>
    rw [resolve, List.forall_mem_cons, ← ih]
    split
    · next e failed => simp [failed]
    · next location found => simp [found]
    · next unknown => simp [unknown]

/-- The first repository that does not deny to know a module decides. -/
theorem resolve_of_first {before after : Chain} {repository : Repository}
    (denied : ∀ earlier ∈ before, earlier.locate tree id = .ok none)
    (known : repository.locate tree id ≠ .ok none) :
    (before ++ repository :: after).resolve tree id = repository.locate tree id := by
  induction before with
  | nil =>
    rw [List.nil_append, resolve]
    split
    · next e failed => rw [failed]
    · next location found => rw [found]
    · next unknown => exact absurd unknown known
  | cons first before ih =>
    obtain ⟨here, denied⟩ := List.forall_mem_cons.mp denied
    rw [List.cons_append, resolve, here]
    exact ih denied

/-- A chain of directories without links, resource repositories and the core library: its listing is
in strict order and has the selected modules that the chain does not deny to know. A module that a
manifest lists without its resource is listed, and fails when it is resolved. -/
theorem offers_what_it_knows {chain : Chain} (wf : tree.WellFormed) (named : tree.Named)
    (unlinked : ∀ root, .directory root ∈ chain → Directory.Unlinked tree root)
    (select : ModuleId → Bool) :
    (chain.collect tree select).Pairwise (· < ·) ∧
    (∀ id, id ∈ chain.collect tree select ↔
      select id = true ∧ chain.resolve tree id ≠ .ok none) ∧
    ∀ before after r identity resources text m id, chain = before ++ .resources r :: after →
      ResourceRepository.ofResources identity resources = .ok r →
      resources.get? Manifest.resourceName = some text → Manifest.parse text = .ok m →
      id ∈ m.modules → resources.get? (r.resourceName id) = none →
      (∀ earlier ∈ before, earlier.locate tree id = .ok none) →
      chain.resolve tree id = .error (.read r.identity (r.resourceName id) .absent) ∧
        (select id = true → id ∈ chain.collect tree select) := by
  have listed : ∀ id, id ∈ chain.collect tree select ↔
      select id = true ∧ chain.resolve tree id ≠ .ok none := by
    intro id
    rw [collect, mem_idSet, List.mem_flatMap, Ne, resolve_eq_none_iff]
    push Not
    constructor
    · rintro ⟨repository, mem, offered⟩
      have here := (Repository.mem_collect_iff wf named fun root same =>
        unlinked root (same ▸ mem)).mp offered
      exact ⟨here.1, repository, mem, here.2⟩
    · rintro ⟨selected, repository, mem, known⟩
      refine ⟨repository, mem, ?_⟩
      exact (Repository.mem_collect_iff wf named fun root same => unlinked root (same ▸ mem)).mpr
        ⟨selected, known⟩
  refine ⟨idSet_pairwise _, listed, ?_⟩
  intro before after r identity resources text m id split opened manifest parsed mem missing denied
  rw [ResourceRepository.ofResources, manifest] at opened
  simp only [parsed, Except.ok.injEq] at opened
  have fails : Repository.locate tree id (.resources r) =
      .error (.read r.identity (r.resourceName id) .absent) := by
    subst opened
    have within : List.contains (idSet m.modules) id = true :=
      List.contains_iff_mem.mpr (mem_idSet.mpr mem)
    simp only [Repository.locate, ResourceRepository.locate, within, if_true, missing]
  have resolved : chain.resolve tree id =
      .error (.read r.identity (r.resourceName id) .absent) := by
    rw [split, resolve_of_first denied (by rw [fails]; simp), fails]
  refine ⟨resolved, fun selected => (listed id).mpr ⟨selected, ?_⟩⟩
  rw [resolved]
  simp

/-- A directory with a module, behind resources whose manifest lists one that is missing, before the
core library. -/
theorem offers_what_it_knows_missing :
    let tree : FileTree :=
      ⟨[(["r"], .dir), (["r", "src"], .dir), (["r", "src", "a"], .dir),
        (["r", "src", "a", "b.loam"], .file []), (["r", "src", "a", "c.txt"], .file [])], []⟩
    let resources := [("manifest.json", Utf8.encode "[1, \"/pkg\", [\"/m\"]]")]
    let b : ModuleId := ⟨"/a/b", by decide⟩
    let m : ModuleId := ⟨"/m", by decide⟩
    let r : ResourceRepository := ⟨"memory:lib", "/pkg", [m], resources⟩
    ResourceRepository.ofResources "memory:lib" resources = .ok r ∧
    ∃ library, Bootstrap.library = .ok library ∧
      let chain : Chain := [.resources r, .directory "r", .bootstrap library]
      (chain.collect tree fun _ => true).Pairwise (· < ·) ∧
        b ∈ chain.collect tree (fun _ => true) ∧ m ∈ chain.collect tree (fun _ => true) ∧
        chain.resolve tree m = .error (.read "memory:lib" (r.resourceName m) .absent) := by
  intro tree resources b m r
  have parsed : Manifest.parse (Utf8.encode "[1, \"/pkg\", [\"/m\"]]") = .ok ⟨1, "/pkg", [m]⟩ := by
    decide +kernel
  have manifest : Fields.get? resources Manifest.resourceName =
      some (Utf8.encode "[1, \"/pkg\", [\"/m\"]]") := rfl
  have opened : ResourceRepository.ofResources "memory:lib" resources = .ok r := by
    simp only [ResourceRepository.ofResources, manifest, parsed]
    rfl
  obtain ⟨library, core⟩ := Bootstrap.library_opens
  have wf : tree.WellFormed := by decide
  let chain : Chain := [.resources r, .directory "r", .bootstrap library]
  have unlinked : ∀ root, .directory root ∈ chain → Directory.Unlinked tree root :=
    fun root _ => Directory.unlinked_of_entries wf (by simp [tree])
  have missing : Fields.get? resources (r.resourceName m) = none := by decide +kernel
  obtain ⟨sorted, listed, known⟩ := offers_what_it_knows wf (by decide) unlinked fun _ => true
  obtain ⟨fails, offered⟩ := known [] _ r _ _ _ _ m rfl opened manifest parsed (by simp) missing
    (by simp)
  refine ⟨opened, library, core, sorted, (listed b).mpr ⟨rfl, ?_⟩, offered rfl, fails⟩
  intro unknown
  have here := resolve_eq_none_iff.mp unknown (.directory "r") (by simp [chain])
  have found : (Directory.locate "r" tree b).isSome = true := by decide +kernel
  rw [Repository.locate, Except.ok.injEq] at here
  rw [here] at found
  cases found

end Chain
end ModuleSystem
