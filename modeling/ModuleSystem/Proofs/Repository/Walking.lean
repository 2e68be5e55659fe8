import ModuleSystem.Proofs.Order
import ModuleSystem.Proofs.Repository.SourceFiles
import ModuleSystem.Repository.Chain

namespace ModuleSystem

namespace FileTree

variable {tree : FileTree} {place : Place} {names : List String} {node : FileNode}

instance (name : String) : Decidable (EntryName name) :=
  decidable_of_iff ((name ≠ "" ∧ '/' ∉ name.toList ∧ name ≠ "." ∧ name ≠ "..") ∧
    name.utf8ByteSize ≤ 255 ∧ '\x00' ∉ name.toList)
    ⟨fun ⟨⟨nonempty, whole, not_here, not_up⟩, short, no_nul⟩ =>
      ⟨⟨nonempty, whole, not_here, not_up⟩, short, no_nul⟩,
    fun h => ⟨⟨h.nonempty, h.whole, h.not_here, h.not_up⟩, h.short, h.no_nul⟩⟩

instance (tree : FileTree) : Decidable tree.WellFormed :=
  decidable_of_iff ((tree.entries.map (·.1)).Nodup ∧
    ∀ e ∈ tree.entries, e.1 ≠ [] ∧ tree.node? e.1.dropLast = some .dir)
    ⟨fun ⟨nodup, parent_dir⟩ => ⟨nodup, parent_dir⟩, fun h => ⟨h.nodup, h.parent_dir⟩⟩

/-- All names in the tree are names that a system gives to entries. -/
def Named (tree : FileTree) : Prop := ∀ e ∈ tree.entries, ∀ name ∈ e.1, EntryName name

instance (tree : FileTree) : Decidable tree.Named :=
  inferInstanceAs (Decidable (∀ e ∈ tree.entries, ∀ name ∈ e.1, EntryName name))

theorem WellFormed.mem_entries (wf : tree.WellFormed) (nonempty : names ≠ []) :
    (place ++ names, node) ∈ tree.entries ↔ tree.node? (place ++ names) = some node := by
  obtain none | ⟨before, name, rfl⟩ := names.eq_nil_or_concat
  · exact absurd none nonempty
  · rw [List.concat_eq_append, ← List.append_assoc, node?_concat, lookup_eq_some_iff wf.nodup]

theorem WellFormed.mem_below (wf : tree.WellFormed) :
    (names, node) ∈ tree.below place ↔ names ≠ [] ∧ tree.node? (place ++ names) = some node := by
  unfold below
  rw [List.mem_filterMap]
  constructor
  · rintro ⟨⟨q, n⟩, mem, found⟩
    simp only [Option.ite_none_right_eq_some, Bool.and_eq_true, List.isPrefixOf_iff_prefix,
      decide_eq_true_eq, Option.some.injEq, Prod.mk.injEq] at found
    obtain ⟨⟨⟨more, rfl⟩, differs⟩, rfl, rfl⟩ := found
    rw [List.drop_left]
    have nonempty : more ≠ [] := by
      rintro rfl
      exact differs (List.append_nil _)
    exact ⟨nonempty, (wf.mem_entries nonempty).mp mem⟩
  · rintro ⟨nonempty, here⟩
    refine ⟨_, (wf.mem_entries nonempty).mpr here, ?_⟩
    have within : (place.isPrefixOf (place ++ names) && decide (place ++ names ≠ place)) = true := by
      rw [Bool.and_eq_true, List.isPrefixOf_iff_prefix, decide_eq_true_eq]
      exact ⟨List.prefix_append _ _, fun same => nonempty (List.append_right_eq_self.mp same)⟩
    rw [if_pos within, List.drop_left]

theorem Named.entry (named : tree.Named) (wf : tree.WellFormed)
    (here : tree.node? (place ++ names) = some node) : ∀ name ∈ names, EntryName name := by
  intro name mem
  have entry := (wf.mem_entries (List.ne_nil_of_mem mem)).mpr here
  exact named _ entry name (List.mem_append_right _ mem)

end FileTree

namespace Directory

theorem stem?_eq_some_iff {name stem : String} : stem? name = some stem ↔ name = fileName stem := by
  have ends_iff : ∀ name : String, name.endsWith ".loam" = true ↔ ".loam".toList <:+ name.toList := by
    intro name
    rw [String.endsWith_eq_endsWith_toSlice, String.Slice.endsWith_string_iff, String.copy_toSlice]
  unfold stem? fileName
  constructor
  · intro found
    split at found
    · next ends =>
      obtain ⟨chars, split⟩ := (ends_iff _).mp ends
      have length : name.length - 5 = chars.length := by
        have lengths := congrArg List.length split
        simp only [List.length_append, String.length_toList] at lengths
        have extension : ".loam".length = 5 := by decide
        omega
      rw [length, ← split, List.take_left, Option.some.injEq] at found
      apply String.toList_inj.mp
      rw [← found, String.toList_append, String.toList_ofList, split]
    · cases found
  · rintro rfl
    have ends : (stem ++ ".loam").endsWith ".loam" = true := by
      rw [ends_iff, String.toList_append]
      exact List.suffix_append _ _
    have length : (stem ++ ".loam").length - 5 = stem.toList.length := by
      rw [String.length_append, String.length_toList]
      have extension : ".loam".length = 5 := by decide
      omega
    rw [if_pos ends, length, String.toList_append, List.take_left]
    simp

/-- A file below the sources belongs to the module whose file is looked for there. -/
theorem idOfFile?_eq_some_iff {names : List String} {id : ModuleId}
    (whole : ∀ name ∈ names, '/' ∉ name.toList) : idOfFile? names = some id ↔ names = fileNames id := by
  have read : ∀ before last, names = before ++ [fileName last] →
      (idOfFile? names = some id ↔ id.segments = before ++ [last]) := by
    rintro before last rfl
    have stem : stem? (fileName last) = some last := stem?_eq_some_iff.mpr rfl
    have pieces : ∀ segment ∈ before ++ [last], '/' ∉ segment.toList := by
      intro segment mem
      obtain mem | mem := List.mem_append.mp mem
      · exact whole segment (List.mem_append_left _ mem)
      · obtain rfl := List.mem_singleton.mp mem
        have last_whole := whole _ List.mem_concat_self
        rw [fileName, String.toList_append, List.mem_append, not_or] at last_whole
        exact last_whole.1
    rw [← ModuleId.ofSegments_eq_ok_iff pieces]
    simp only [idOfFile?, List.getLast?_concat, bind, Option.bind, stem, List.dropLast_concat]
    cases ModuleId.ofSegments (before ++ [last]) <;> simp [Except.toOption]
  constructor
  · intro found
    obtain none | ⟨before, name, split⟩ := names.eq_nil_or_concat
    · rw [none] at found
      cases found
    rw [List.concat_eq_append] at split
    -- Only names with the extension are read.
    obtain ⟨last, stem⟩ : ∃ last, stem? name = some last := by
      rw [← Option.isSome_iff_exists]
      by_contra unread
      rw [split] at found
      simp only [idOfFile?, List.getLast?_concat, bind, Option.bind,
        Option.not_isSome_iff_eq_none.mp unread] at found
      cases found
    rw [stem?_eq_some_iff.mp stem] at split
    rw [split, fileNames, (read before last split).mp found, List.modifyLast_concat]
  · intro same
    obtain ⟨before, last, segments, files⟩ := exists_last id
    exact (read before last (same.trans files)).mpr segments

section

variable {tree : FileTree} {root : String} {select : ModuleId → Bool} {id : ModuleId}

/-- A module is listed if something that is no directory stands where its file is looked for. -/
theorem mem_collect_iff (wf : tree.WellFormed) (named : tree.Named) :
    id ∈ collect root tree select ↔ select id = true ∧ ∃ top node,
      tree.find (sourceDir root) = .ok (top, .dir) ∧ tree.node? (top ++ fileNames id) = some node ∧
        node ≠ .dir := by
  unfold collect
  split
  · next top found =>
    simp only [mem_idSet, List.mem_filter, List.mem_filterMap, Option.ite_none_left_eq_some]
    constructor
    · rintro ⟨⟨⟨names, node⟩, below, other, made⟩, selected⟩
      obtain ⟨_, here⟩ := wf.mem_below.mp below
      have whole := fun name mem => (named.entry wf here name mem).whole
      rw [(idOfFile?_eq_some_iff whole).mp made] at here
      exact ⟨selected, top, node, found, here, other⟩
    · rintro ⟨selected, top', node, found', here, other⟩
      rw [found, Except.ok.injEq, Prod.mk.injEq] at found'
      obtain ⟨rfl, _⟩ := found'
      refine ⟨⟨_, wf.mem_below.mpr ⟨fileNames_ne_nil id, here⟩, other, ?_⟩, selected⟩
      exact (idOfFile?_eq_some_iff fun name mem => (plain_of_fileNames name mem).whole).mpr rfl
  · next other =>
    constructor
    · intro mem
      cases mem
    · rintro ⟨_, top, _, found, _⟩
      exact absurd found (other top)

theorem moduleFile_below (root : String) (id : ModuleId) :
    moduleFile root id = (fileNames id).foldl Path.join (sourceDir root) := moduleFile_eq root id

theorem locate_isSome_iff : (∃ location, locate root tree id = some location) ↔
    ∃ place bytes, tree.find (moduleFile root id) = .ok (place, .file bytes) := by
  rw [← FileTree.isFile_iff, locate]
  split
  · next file => simp [file]
  · next missing => simp [missing]

/-- What stands in the place of a module is found, if it is no link. -/
theorem find_module (wf : tree.WellFormed) (named : tree.Named) {top : Place} {node : FileNode}
    (found : tree.find (sourceDir root) = .ok (top, .dir))
    (here : tree.node? (top ++ fileNames id) = some node) (no_link : ∀ target, node ≠ .link target) :
    tree.find (moduleFile root id) = .ok (top ++ fileNames id, node) := by
  rw [moduleFile_below]
  exact FileTree.find_below wf found (named.entry wf here) here no_link

/-- A module that is listed can be provided, unless its file is a link that leads to no file. -/
theorem listed_unless_broken (wf : tree.WellFormed) (named : tree.Named)
    (listed : id ∈ collect root tree select) :
    locate root tree id = none ↔ ∃ top target, tree.find (sourceDir root) = .ok (top, .dir) ∧
      tree.node? (top ++ fileNames id) = some (.link target) ∧
      ∀ place bytes, tree.find (moduleFile root id) ≠ .ok (place, .file bytes) := by
  obtain ⟨_, top, node, found, here, other⟩ := (mem_collect_iff wf named).mp listed
  rw [← Option.not_isSome_iff_eq_none, Option.isSome_iff_exists, locate_isSome_iff]
  push Not
  constructor
  · intro missing
    cases node with
    | dir => exact absurd rfl other
    | file bytes => exact absurd (find_module wf named found here (by simp)) (missing _ _)
    | link target => exact ⟨top, target, found, here, missing⟩
  · rintro ⟨_, _, _, _, missing⟩
    exact missing

end

/-- A directory of sources with a link that leads nowhere. -/
def dangling : FileTree :=
  ⟨[(["r"], .dir), (["r", "src"], .dir), (["r", "src", "broken.loam"], .link "nowhere")], []⟩

/-- Not every module that is listed can be provided, and then it is found nowhere. -/
theorem dangling_listed : ∃ (tree : FileTree) (root : String) (id : ModuleId),
    tree.WellFormed ∧ tree.Named ∧ id ∈ collect root tree (fun _ => true) ∧
      locate root tree id = none ∧ Chain.resolve tree id [.directory root] = .ok none := by
  have missing : (locate "r" dangling ⟨"/broken", by decide⟩).isNone = true := by decide +kernel
  have missing := Option.isNone_iff_eq_none.mp missing
  refine ⟨dangling, "r", ⟨"/broken", by decide⟩, by decide, by decide, ?_, missing, ?_⟩
  · decide +kernel
  · simp only [Chain.resolve, Repository.locate, missing]

/-- A link that leads to no file is the reason. -/
theorem listed_unless_broken_dangling :
    (⟨"/broken", by decide⟩ : ModuleId) ∈ collect "r" dangling (fun _ => true) ∧
    ∃ top target, dangling.find (sourceDir "r") = .ok (top, .dir) ∧
      dangling.node? (top ++ fileNames ⟨"/broken", by decide⟩) = some (.link target) ∧
      ∀ place bytes, dangling.find (moduleFile "r" ⟨"/broken", by decide⟩) ≠
        .ok (place, .file bytes) := by
  have listed : (⟨"/broken", by decide⟩ : ModuleId) ∈ collect "r" dangling (fun _ => true) := by
    decide +kernel
  have missing : (locate "r" dangling ⟨"/broken", by decide⟩).isNone = true := by decide +kernel
  exact ⟨listed, (listed_unless_broken (by decide) (by decide) listed).mp
    (Option.isNone_iff_eq_none.mp missing)⟩

end Directory
end ModuleSystem
