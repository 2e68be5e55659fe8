import ModuleSystem.Proofs.FileTree.Below
import ModuleSystem.Proofs.ModuleId.Segments
import ModuleSystem.Repository.Directory

namespace ModuleSystem

namespace ModuleId

theorem segment_plain {id : ModuleId} {segment : String} (mem : segment ∈ id.segments) :
    Path.Plain segment := by
  have valid := id.segment segment mem
  refine ⟨valid.nonempty, valid.no_slash, ?_, ?_⟩
  · rintro rfl
    exact valid.lacks (c := '.') (by decide) (by decide)
  · rintro rfl
    exact valid.lacks (c := '.') (by decide) (by decide)

theorem segment_no_nul {id : ModuleId} {segment : String} (mem : segment ∈ id.segments) :
    '\x00' ∉ segment.toList := (id.segment segment mem).lacks (by decide)

end ModuleId

namespace Directory

/-- The name of the file of a module, for the last segment of its id. -/
def fileName (segment : String) : String := segment ++ ".loam"

/-- The names that lead from the source directory to the file of a module. -/
def fileNames (id : ModuleId) : List String := id.segments.modifyLast fileName

theorem fileName_plain {segment : String} (plain : Path.Plain segment) :
    Path.Plain (fileName segment) := by
  have long : 5 < (fileName segment).length := by
    have filled : segment.length ≠ 0 := by simpa using plain.nonempty
    rw [fileName, String.length_append]
    have extension : ".loam".length = 5 := by decide
    omega
  have other : ∀ name : String, name.length ≤ 5 → fileName segment ≠ name := by
    rintro name short rfl
    omega
  refine ⟨other _ (by decide), ?_, other _ (by decide), other _ (by decide)⟩
  rw [fileName, String.toList_append, List.mem_append]
  rintro (before | after)
  · exact plain.whole before
  · exact absurd after (by decide)

/-- The segments before the last one, and the last one. -/
theorem exists_last (id : ModuleId) : ∃ before last, id.segments = before ++ [last] ∧
    fileNames id = before ++ [fileName last] := by
  obtain ⟨before, last, split⟩ := id.exists_last
  refine ⟨before, last, split, ?_⟩
  rw [fileNames, split, List.modifyLast_concat]

theorem fileNames_ne_nil (id : ModuleId) : fileNames id ≠ [] := by
  obtain ⟨before, last, _, names⟩ := exists_last id
  rw [names]
  exact List.append_ne_nil_of_right_ne_nil _ (List.cons_ne_nil _ _)

theorem fileNames_injective {a b : ModuleId} (same : fileNames a = fileNames b) : a = b := by
  obtain ⟨before, last, split, names⟩ := exists_last a
  obtain ⟨before', last', split', names'⟩ := exists_last b
  rw [names, names'] at same
  obtain ⟨rfl, ends⟩ := List.append_inj' same rfl
  have lasts : last = last' := (String.append_left_inj ".loam").mp (List.singleton_inj.mp ends)
  apply ModuleId.segments_injective
  rw [split, split', lasts]

theorem plain_of_fileNames {id : ModuleId} : ∀ name ∈ fileNames id, Path.Plain name := by
  obtain ⟨before, last, split, names⟩ := exists_last id
  have plain : ∀ segment ∈ before ++ [last], Path.Plain segment := by
    rw [← split]
    exact fun segment mem => ModuleId.segment_plain mem
  intro name mem
  rw [names, List.mem_append, List.mem_singleton] at mem
  obtain mem | rfl := mem
  · exact plain name (List.mem_append_left _ mem)
  · exact fileName_plain (plain last List.mem_concat_self)

theorem src_plain : Path.Plain "src" := ⟨by decide, by decide, by decide, by decide⟩

/-- The names are joined one by one, beginning with the source directory. -/
theorem moduleFile_eq (root : String) (id : ModuleId) :
    moduleFile root id = ("src" :: fileNames id).foldl Path.join root := by
  obtain ⟨before, last, split, names⟩ := exists_last id
  have ends : last ∈ id.segments := by
    rw [split]
    exact List.mem_concat_self
  rw [moduleFile, sourceDir, split, names, List.foldl_cons, List.foldl_append, List.foldl_append]
  exact Path.join_append (ModuleId.segment_plain ends) ".loam"

theorem all_plain {id : ModuleId} : ∀ name ∈ "src" :: fileNames id, Path.Plain name :=
  List.forall_mem_cons.mpr ⟨src_plain, plain_of_fileNames⟩

theorem all_no_nul {id : ModuleId} : ∀ name ∈ "src" :: fileNames id, '\x00' ∉ name.toList := by
  obtain ⟨before, last, split, names⟩ := exists_last id
  have without : ∀ segment ∈ before ++ [last], '\x00' ∉ segment.toList := by
    rw [← split]
    exact fun segment mem => ModuleId.segment_no_nul mem
  intro name mem
  rw [names, List.mem_cons, List.mem_append, List.mem_singleton] at mem
  obtain rfl | mem | rfl := mem
  · decide
  · exact without name (List.mem_append_left _ mem)
  · rw [fileName, String.toList_append, List.mem_append]
    rintro (within | within)
    · exact without last List.mem_concat_self within
    · exact absurd within (by decide)

/-- A directory with the sources of some modules, each of them where it belongs. There are no other
files where sources are looked for. -/
structure Holds (tree : FileTree) (root : String) (top : Place)
    (sources : ModuleId → Option (List UInt8)) : Prop where
  wellFormed : tree.WellFormed
  found : tree.find root = .ok (top, .dir)
  files : ∀ names bytes, tree.node? (top ++ "src" :: names) = some (.file bytes) ↔
    ∃ id, names = fileNames id ∧ sources id = some bytes
  no_link : ∀ names target, tree.node? (top ++ "src" :: names) ≠ some (.link target)
  short : ∀ names node, tree.node? (top ++ names) = some node → ∀ name ∈ names,
    name.utf8ByteSize ≤ 255

namespace Holds

variable {tree : FileTree} {root : String} {top : Place}
  {sources : ModuleId → Option (List UInt8)} {id : ModuleId}

theorem find (h : Holds tree root top sources) {bytes : List UInt8} (known : sources id = some bytes) :
    tree.find (moduleFile root id) = .ok (top ++ "src" :: fileNames id, .file bytes) := by
  have file := (h.files (fileNames id) bytes).mpr ⟨id, rfl, known⟩
  have entries : ∀ name ∈ "src" :: fileNames id, FileTree.EntryName name := fun name mem =>
    ⟨all_plain name mem, h.short _ _ file name mem, all_no_nul name mem⟩
  rw [moduleFile_eq]
  exact FileTree.find_below h.wellFormed h.found entries file (by simp)

theorem read (h : Holds tree root top sources) {bytes : List UInt8} (known : sources id = some bytes) :
    tree.read (moduleFile root id) = .ok bytes := FileTree.read_of_find (h.find known)

/-- A path that is made from an id leads to the file of that module, or to none. -/
theorem known_of_find (h : Holds tree root top sources) {place : Place} {bytes : List UInt8}
    (found : tree.find (moduleFile root id) = .ok (place, .file bytes)) : sources id = some bytes := by
  obtain ⟨resolved, here⟩ := FileTree.find_eq_ok_iff.mp found
  obtain ⟨_, _, goes⟩ := FileTree.resolve_eq_ok_iff.mp resolved
  obtain ⟨_, _, toTop⟩ := FileTree.resolve_eq_ok_iff.mp (FileTree.find_eq_ok_iff.mp h.found).1
  rw [moduleFile_eq, FileTree.start_below all_plain,
    Path.components_below all_plain (List.cons_ne_nil _ _)] at goes
  have there := toTop.to_bare.place_below all_plain (fun before name within target => ?_) goes
  · rw [there] at here
    obtain ⟨id', names, known⟩ := (h.files _ _).mp here
    rwa [fileNames_injective names]
  · rw [List.append_assoc]
    obtain none | ⟨rest, begins, _⟩ := List.prefix_cons_iff.mp within
    · exact absurd none (by simp)
    · rw [begins]
      exact h.no_link rest target

/-- Which modules the directory knows. -/
theorem locate (h : Holds tree root top sources) (id : ModuleId) :
    Directory.locate root tree id = (sources id).map fun _ =>
      ⟨identity root, moduleFile root id, .file (moduleFile root id)⟩ := by
  rw [Directory.locate]
  cases known : sources id with
  | some bytes =>
    rw [if_pos (FileTree.isFile_iff.mpr ⟨_, _, h.find known⟩)]
    rfl
  | none =>
    have missing : ¬tree.isFile (moduleFile root id) = true := by
      intro file
      obtain ⟨place, bytes, found⟩ := FileTree.isFile_iff.mp file
      rw [h.known_of_find found] at known
      cases known
    rw [if_neg missing]
    rfl

end Holds
end Directory
end ModuleSystem
