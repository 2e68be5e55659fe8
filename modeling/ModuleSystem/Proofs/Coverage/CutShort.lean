import ModuleSystem.Proofs.Coverage.Directory
import ModuleSystem.Proofs.FileTree.Removing

namespace ModuleSystem.Coverage

open FileTree (EntryName AreFiles)
open Json (Cut)

/-- Hit files in a directory of which only the beginning is there. -/
def CutShort (tree : FileTree) (dir : Place) (gone : List Place) : Prop :=
  ∀ place ∈ gone, ∃ name, place = dir ++ [name] ∧ EntryName name ∧ HitFile.isName name = true ∧
    ∃ part runId units, tree.node? place = some (.file part) ∧
      Cut part (HitFile.ofUnits runId units).bytes

namespace CutShort

variable {tree : FileTree} {dir : String} {place : Place} {gone : List Place}

theorem files (h : CutShort tree place gone) : tree.AreFiles gone := by
  intro q mem
  obtain ⟨_, _, _, _, part, _, _, file, _⟩ := h q mem
  exact ⟨part, file⟩

theorem find_dir (h : CutShort tree place gone) (found : tree.find dir = .ok (place, .dir)) :
    (tree.without gone).find dir = .ok (place, .dir) := by
  refine (FileTree.find_without h.files).mpr ⟨found, fun mem => ?_⟩
  obtain ⟨bytes, file⟩ := h.files place mem
  rw [(FileTree.find_eq_ok_iff.mp found).2] at file
  cases file

/-- What is read of such a file is refused. -/
theorem refused (h : CutShort tree place gone) {path : String} {q : Place} {node : FileNode}
    (found : tree.find path = .ok (q, node)) (mem : q ∈ gone) : Report.isMerged tree path = false := by
  obtain ⟨_, _, _, _, part, runId, units, file, cut⟩ := h q mem
  obtain ⟨resolved, here⟩ := FileTree.find_eq_ok_iff.mp found
  obtain rfl : node = .file part := Option.some.inj (here.symm.trans file)
  obtain ⟨reason, untrusted⟩ := HitFile.parse_cut runId units cut
  rw [Report.isMerged, Report.readHitFile, FileTree.read_of_find found]
  dsimp only
  rw [untrusted]
  rfl

/-- The descriptor is none of them, unless it is a link. -/
theorem descriptor (h : CutShort tree place gone) (found : tree.find dir = .ok (place, .dir))
    (no_link : ∀ target, tree.node? (place ++ ["config.json"]) ≠ some (.link target)) :
    (tree.without gone).read (scopePath dir) = tree.read (scopePath dir) := by
  have kept : place ++ ["config.json"] ∉ gone := by
    intro mem
    obtain ⟨name, same, _, named, _⟩ := h _ mem
    obtain rfl : "config.json" = name := by simpa using same
    exact absurd named (by decide +kernel)
  have resolved := FileTree.resolve_join found entryName_config no_link
  have resolved' := (FileTree.sameWays_without h.files).resolve resolved
  have node := FileTree.node?_without h.files (place ++ ["config.json"])
  rw [if_neg kept] at node
  simp only [scopePath, FileTree.read, FileTree.find, resolved, resolved', bind, Except.bind, node]

end CutShort

namespace Report

/-- A report that lists fewer of the files that were left out. -/
def keeping (report : Report) (keep : String → Bool) : Report :=
  { report with skipped := report.skipped.filter fun s => keep s.path }

variable {tree tree' : FileTree} {dir : String} {place : Place} {gone : List Place}

/-- Files that are not merged may be left out. -/
theorem mergeFiles_filter {scope : Option Scope} {paths : List String} {keep : String → Bool}
    (same : ∀ path ∈ paths, keep path = true → readHitFile tree' path = readHitFile tree path)
    (idle : ∀ path ∈ paths, keep path = false → isMerged tree path = false) :
    mergeFiles tree' scope (paths.filter keep) = (mergeFiles tree scope paths).keeping keep := by
  have congr : mergeFiles tree' scope (paths.filter keep) =
      mergeFiles tree scope (paths.filter keep) := mergeFiles_congr scope fun path mem =>
    same path (List.mem_of_mem_filter mem) (List.mem_filter.mp mem).2
  have parts : entriesOf tree (paths.filter keep) = entriesOf tree paths ∧
      (paths.filter keep).filter (isMerged tree) = paths.filter (isMerged tree) ∧
      (paths.filter keep).filterMap (skip? tree) =
        (paths.filterMap (skip? tree)).filter fun s => keep s.path := by
    clear congr same
    induction paths with
    | nil => exact ⟨rfl, rfl, rfl⟩
    | cons path rest ih =>
      obtain ⟨entries, merged, skipped⟩ := ih fun path mem => idle path (List.mem_cons_of_mem _ mem)
      cases kept : keep path with
      | true =>
        rw [List.filter_cons_of_pos kept]
        refine ⟨?_, ?_, ?_⟩
        · rw [entriesOf, List.flatMap_cons, ← entriesOf, entries]
          rfl
        · rw [List.filter_cons, List.filter_cons, merged]
        · rw [List.filterMap_cons, List.filterMap_cons, skip?]
          cases readHitFile tree path with
          | ok file => exact skipped
          | error reason => simp [kept, skipped]
      | false =>
        have left := idle path List.mem_cons_self kept
        rw [List.filter_cons_of_neg (by simp [kept]), List.filter_cons_of_neg (by simp [left])]
        refine ⟨?_, merged, ?_⟩
        · rw [entries, entriesOf, entriesOf, List.flatMap_cons]
          rw [isMerged] at left
          cases outcome : readHitFile tree path with
          | ok file =>
            rw [outcome] at left
            cases left
          | error reason => rfl
        · rw [List.filterMap_cons, skip?]
          cases readHitFile tree path with
          | ok file => exact skipped
          | error reason => simp [kept, skipped]
  obtain ⟨entries, merged, skipped⟩ := parts
  rw [congr, mergeFiles_eq, mergeFiles_eq, entries, merged, skipped]
  rfl

theorem isFile_of_hitFilePaths {paths : List String} (listed : hitFilePaths tree dir = .ok paths)
    {path : String} (mem : path ∈ paths) : tree.isFile path = true := by
  unfold hitFilePaths at listed
  split at listed
  · cases listed
  · cases listed
    exact (List.mem_filter.mp mem).2

/-- A directory without the files that were cut short gives up the paths that it gave up before, as
far as they still lead to files. -/
theorem hitFilePaths_without (wf : tree.WellFormed) (found : tree.find dir = .ok (place, .dir))
    (cut : CutShort tree place gone) :
    ∃ paths, hitFilePaths tree dir = .ok paths ∧
      hitFilePaths (tree.without gone) dir = .ok (paths.filter (tree.without gone).isFile) := by
  have found' := cut.find_dir found
  refine ⟨_, by rw [hitFilePaths, FileTree.list_of_find found], ?_⟩
  have fewer : ∀ path, (tree.without gone).isFile path = true → tree.isFile path = true := by
    intro path file
    obtain ⟨q, bytes, there, _⟩ := (FileTree.isFile_without cut.files).mp file
    exact FileTree.isFile_iff.mpr ⟨q, bytes, there⟩
  have lost : ∀ name, place ++ [name] ∈ gone →
      (tree.without gone).isFile (Path.join dir name) = false := by
    intro name mem
    obtain ⟨name', same, entry, _, part, _, _, file, _⟩ := cut _ mem
    obtain rfl : name = name' := by simpa using same
    have here := FileTree.resolve_join found entry (by rw [file]; simp)
    rw [Bool.eq_false_iff]
    intro still
    obtain ⟨q, bytes, there, kept⟩ := (FileTree.isFile_without cut.files).mp still
    rw [(FileTree.find_eq_ok_iff.mp there).1] at here
    cases here
    exact kept mem
  rw [hitFilePaths, FileTree.list_of_find found', FileTree.childrenOf_without wf cut.files]
  dsimp only
  rw [List.filter_filter, List.filter_filter, List.filter_map, List.filter_map, List.filter_filter,
    List.filter_filter]
  congr 2
  refine List.filter_congr fun child _ => ?_
  by_cases mem : place ++ [child.1] ∈ gone
  · simp [lost child.1 mem]
  · cases file : (tree.without gone).isFile (Path.join dir child.1) with
    | false => simp [file]
    | true => simp [file, mem, fewer _ file]

/-- The merge of a directory with hit files that were cut short. -/
theorem merge_without (wf : tree.WellFormed) (found : tree.find dir = .ok (place, .dir))
    (cut : CutShort tree place gone)
    (descriptor : (tree.without gone).read (scopePath dir) = tree.read (scopePath dir)) :
    merge (tree.without gone) dir =
      (merge tree dir).map (·.keeping (tree.without gone).isFile) := by
  obtain ⟨paths, listed, listed'⟩ := hitFilePaths_without wf found cut
  have found' := cut.find_dir found
  have scopes : loadScope (tree.without gone) dir = loadScope tree dir := by
    rw [loadScope, loadScope, descriptor]
  simp only [merge, FileTree.contains_of_find found, FileTree.contains_of_find found', scopes,
    listed, listed', Bool.not_true, Bool.false_eq_true, if_false, bind, Except.bind]
  cases loadScope tree dir with
  | error e => rfl
  | ok scope =>
    refine congrArg Except.ok (mergeFiles_filter ?_ ?_)
    · intro path mem kept
      obtain ⟨q, bytes, there, kept⟩ := (FileTree.isFile_without cut.files).mp kept
      have there' := (FileTree.find_without cut.files).mpr ⟨there, kept⟩
      rw [readHitFile, readHitFile, FileTree.read_of_find there, FileTree.read_of_find there']
    · intro path mem left
      obtain ⟨q, bytes, there⟩ := FileTree.isFile_iff.mp (isFile_of_hitFilePaths listed mem)
      refine cut.refused there (by_contra fun kept => ?_)
      rw [(FileTree.isFile_without cut.files).mpr ⟨q, bytes, there, kept⟩] at left
      cases left

/-- A hit file is trusted as a whole or not at all. No part of what is written of it is accepted,
wherever it ends. A directory that holds such parts is merged as it would be without them, but that
it lists them among the files that were left out. -/
theorem cut_short_ignored :
    (∀ runId units part, part <+: (HitFile.ofUnits runId units).bytes →
      part ≠ (HitFile.ofUnits runId units).bytes → ∃ reason, HitFile.parse part = .error reason) ∧
    ∀ (tree : FileTree) (dir : String) (place : Place) (gone : List Place), tree.WellFormed →
      tree.find dir = .ok (place, .dir) → CutShort tree place gone →
      (tree.without gone).read (scopePath dir) = tree.read (scopePath dir) →
      merge (tree.without gone) dir =
        (merge tree dir).map (·.keeping (tree.without gone).isFile) :=
  ⟨fun runId units _ beginning short => HitFile.parse_cut runId units ⟨beginning, short⟩,
    fun _ _ _ _ wf found cut descriptor => merge_without wf found cut descriptor⟩

/-- Of two hit files, one lacks its last byte. -/
theorem cut_short_ignored_last_byte :
    let counted (runId : String) : HitFile :=
      .ofUnits runId [⟨"demo/app", .module, "app.loam", [⟨⟨1, 1⟩, 1⟩]⟩]
    let whole : Place × FileNode := (["data", "hits-a.json"], .file (counted "a").bytes)
    let torn : Place × FileNode := (["data", "hits-b.json"], .file (counted "b").bytes.dropLast)
    let tree : FileTree := ⟨[(["data"], .dir), whole, torn], []⟩
    let rest : FileTree := ⟨[(["data"], .dir), whole], []⟩
    (∃ reason, HitFile.parse (counted "b").bytes.dropLast = .error reason) ∧
      merge rest "/data" = (merge tree "/data").map (·.keeping rest.isFile) := by
  intro counted whole torn tree rest
  have written : (counted "b").bytes ≠ [] := by
    intro none
    obtain ⟨b, more, begins, _⟩ := (HitFile.reads (counted "b")).begins .pretty 0
    rw [HitFile.bytes_eq, begins] at none
    cases none
  have short : (counted "b").bytes.dropLast ≠ (counted "b").bytes := by
    intro same
    have shorter := congrArg List.length same
    rw [List.length_dropLast] at shorter
    have some := List.length_pos_iff.mpr written
    omega
  have beginning : (counted "b").bytes.dropLast <+: (counted "b").bytes := List.dropLast_prefix _
  have wf : tree.WellFormed := by
    refine ⟨by decide, fun e mem => ?_⟩
    simp only [tree, whole, torn, List.mem_cons, List.not_mem_nil, or_false] at mem
    obtain rfl | rfl | rfl := mem <;> exact ⟨by simp, rfl⟩
  have found : tree.find "/data" = .ok (["data"], .dir) := by decide +kernel
  have entry : EntryName "hits-b.json" :=
    ⟨⟨by decide, by decide, by decide, by decide⟩, by decide, by decide⟩
  have cut : CutShort tree ["data"] [["data", "hits-b.json"]] := by
    intro place mem
    rw [List.mem_singleton.mp mem]
    exact ⟨"hits-b.json", rfl, entry, by decide +kernel, _, "b", _, rfl, beginning, short⟩
  have no_link : ∀ target, tree.node? (["data"] ++ ["config.json"]) ≠ some (.link target) := by
    intro target link
    cases link
  exact ⟨cut_short_ignored.1 "b" _ _ beginning short,
    cut_short_ignored.2 tree "/data" ["data"] _ wf found cut (cut.descriptor found no_link)⟩

end Report
end ModuleSystem.Coverage
