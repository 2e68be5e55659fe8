import ModuleSystem.Coverage.Session
import ModuleSystem.Proofs.Coverage.HitFiles
import ModuleSystem.Proofs.Coverage.Merge
import ModuleSystem.Proofs.FileTree.Following

namespace ModuleSystem.Coverage

open FileTree (EntryName)

/-- An id that a file can be called after. -/
structure RunId (runId : String) : Prop where
  whole : '/' ∉ runId.toList
  no_nul : '\x00' ∉ runId.toList
  short : runId.utf8ByteSize ≤ 245

namespace HitFile

theorem fileName_injective {a b : String} (h : fileName a = fileName b) : a = b :=
  (String.append_right_inj "hits-").mp ((String.append_left_inj ".json").mp h)

theorem isName_fileName (runId : String) : isName (fileName runId) = true := by
  rw [isName, Bool.and_eq_true, String.startsWith_string_iff, String.endsWith_eq_endsWith_toSlice,
    String.Slice.endsWith_string_iff, String.copy_toSlice]
  have text : (fileName runId).toList = "hits-".toList ++ (runId.toList ++ ".json".toList) := by
    simp [fileName]
  rw [text]
  refine ⟨List.prefix_append _ _, ?_⟩
  rw [← List.append_assoc]
  exact List.suffix_append _ _

theorem fileName_ne_config (runId : String) : fileName runId ≠ "config.json" := by
  intro same
  have first := congrArg (fun name => name.toList.head?) same
  simp [fileName] at first

end HitFile

theorem RunId.entryName {runId : String} (h : RunId runId) : EntryName (HitFile.fileName runId) := by
  have text : (HitFile.fileName runId).toList =
      "hits-".toList ++ (runId.toList ++ ".json".toList) := by simp [HitFile.fileName]
  have begins : (HitFile.fileName runId).toList.head? = some 'h' := by rw [text]; rfl
  have other : ∀ name : String, name.toList.head? ≠ some 'h' → HitFile.fileName runId ≠ name := by
    rintro name differs rfl
    exact differs begins
  have without : ∀ c, c ∉ "hits-".toList → c ∉ ".json".toList → c ∉ runId.toList →
      c ∉ (HitFile.fileName runId).toList := by
    intro c first last middle
    rw [text, List.mem_append, List.mem_append]
    tauto
  have short := h.short
  refine ⟨⟨other _ (by decide), without _ (by decide) (by decide) h.whole, other _ (by decide),
    other _ (by decide)⟩, ?_, without _ (by decide) (by decide) h.no_nul⟩
  simp only [HitFile.fileName, String.utf8ByteSize_append]
  change 5 + runId.utf8ByteSize + 5 ≤ 255
  omega

theorem entryName_config : EntryName "config.json" :=
  ⟨⟨by decide, by decide, by decide, by decide⟩, by decide, by decide⟩

section

variable {tree : FileTree} {dir : String} {place : Place}

theorem makeDataDir_of_find (found : tree.find dir = .ok (place, .dir)) :
    (makeDataDir dir).run tree = (.ok (), tree) := by
  rw [makeDataDir, Filing.run_edit, FileTree.makeDirs_of_dir found]

/-- A file is saved in a directory that is there, unless another one stands in its place. -/
theorem HitFile.save_of_find {runId : String} (id : RunId runId)
    (found : tree.find dir = .ok (place, .dir))
    (no_dir : tree.node? (place ++ [HitFile.fileName runId]) ≠ some .dir) (units : List UnitHits) :
    ((HitFile.ofUnits runId units).save dir).run tree =
      (.ok (Path.join dir (HitFile.fileName runId)),
        tree.put (place ++ [HitFile.fileName runId]) (.file (HitFile.ofUnits runId units).bytes)) := by
  have replaced := FileTree.replace_join found id.entryName no_dir (HitFile.ofUnits runId units).bytes
  have edited : (Filing.edit (CoverageError.data (Path.join dir (HitFile.fileName runId)))
      (·.replace (Path.join dir (HitFile.fileName runId))
        (HitFile.ofUnits runId units).bytes)).run tree =
          (.ok (), tree.put (place ++ [HitFile.fileName runId])
            (.file (HitFile.ofUnits runId units).bytes)) := by
    rw [Filing.run_edit, replaced]
  rw [HitFile.save, Filing.run_bind_ok (makeDataDir_of_find found)]
  exact Filing.run_bind_ok edited

namespace Session

variable {s : Session}

/-- A session without units has no file. -/
theorem flush_unknown (unknown : s.units = []) :
    s.flush.run tree = (({ s with dirty := false }, .ok none), tree) := by
  rw [flush, if_pos (List.isEmpty_iff.mpr unknown)]
  rfl

/-- What a session with units does when it is flushed. -/
theorem flush_known (known : s.units ≠ []) :
    s.flush.run tree = match ((HitFile.ofUnits s.runId s.units).save s.dir).run tree with
      | (.ok path, tree') => (({ s with dirty := false }, .ok (some path)), tree')
      | (.error e, tree') => (({ s with dirty := true }, .error e), tree') := by
  have some : ¬s.units.isEmpty = true := by simpa using known
  rw [flush, if_neg some, StateT.run_bind]
  rcases saved : ((HitFile.ofUnits s.runId s.units).save s.dir).run tree with ⟨answer, tree'⟩
  have ran : StateT.run ((HitFile.ofUnits s.runId s.units).save s.dir).run tree = _ := saved
  rw [ran]
  cases answer <;> rfl

/-- A session that is not dirty is closed without a write. -/
theorem close_clean (clean : s.dirty = false) : s.close.run tree = ((), tree) := by
  rw [close, clean]
  rfl

theorem close_dirty (dirty : s.dirty = true) :
    s.close.run tree = ((), (s.flush.run tree).2) := by
  rw [close, dirty]
  rfl

end Session
end

/-- A data directory with nothing in it but hit files. `saved` tells for each run id what its session
saved last, if it saved anything. -/
structure Holds (tree : FileTree) (dir : String) (place : Place)
    (saved : String → Option (List UnitHits)) : Prop where
  wellFormed : tree.WellFormed
  found : tree.find dir = .ok (place, .dir)
  entries : ∀ name node, tree.node? (place ++ [name]) = some node ↔ ∃ runId units,
    saved runId = some units ∧ name = HitFile.fileName runId ∧
      node = .file (HitFile.ofUnits runId units).bytes
  ids : ∀ runId units, saved runId = some units → RunId runId

/-- What a session saves when it is flushed: nothing as long as it knows no unit. -/
def kept (units : List UnitHits) : Option (List UnitHits) := if units.isEmpty then none else some units

namespace Holds

variable {tree tree' : FileTree} {dir : String} {place : Place}
  {saved : String → Option (List UnitHits)}

theorem of_empty (wf : tree.WellFormed) (empty : tree.list dir = .ok []) :
    ∃ place, Holds tree dir place fun _ => none := by
  have isDir : ∃ place, tree.find dir = .ok (place, .dir) := by
    rw [FileTree.list] at empty
    obtain ⟨⟨place, node⟩, found, listed⟩ := Except.of_bind_ok empty
    cases node with
    | dir => exact ⟨place, found⟩
    | file | link => cases listed
  obtain ⟨place, found⟩ := isDir
  have none : tree.childrenOf place = [] := by
    rw [FileTree.list_of_find found] at empty
    exact Except.ok.inj empty
  refine ⟨place, wf, found, fun name node => ⟨fun here => ?_, fun h => ?_⟩, fun runId units h => ?_⟩
  · have mem := wf.mem_childrenOf.mpr here
    rw [none] at mem
    cases mem
  · obtain ⟨_, _, h, _⟩ := h
    cases h
  · cases h

variable (h : Holds tree dir place saved)
include h

theorem is_file {name : String} {node : FileNode} (here : tree.node? (place ++ [name]) = some node) :
    ∃ bytes, node = .file bytes := by
  obtain ⟨_, _, _, _, file⟩ := (h.entries _ _).mp here
  exact ⟨_, file⟩

theorem no_dir (name : String) : tree.node? (place ++ [name]) ≠ some .dir := by
  intro here
  obtain ⟨_, file⟩ := h.is_file here
  cases file

theorem no_link (name target : String) : tree.node? (place ++ [name]) ≠ some (.link target) := by
  intro here
  obtain ⟨_, file⟩ := h.is_file here
  cases file

theorem configured : Configured tree dir none := by
  refine .absent ?_
  have missing : tree.node? (place ++ ["config.json"]) = none := by
    refine Option.eq_none_iff_forall_ne_some.mpr fun node here => ?_
    obtain ⟨runId, _, _, same, _⟩ := (h.entries _ _).mp here
    exact HitFile.fileName_ne_config runId same.symm
  have resolved := FileTree.resolve_join h.found entryName_config (h.no_link _)
  simp only [FileTree.read, FileTree.find, scopePath, resolved, bind, Except.bind, missing]

theorem start (runId : String) :
    (Session.start dir runId).run tree = (.ok ⟨dir, runId, none, [], false⟩, tree) := by
  have looked : (get : Filing CoverageError FileTree).run tree = (.ok tree, tree) := rfl
  rw [Session.start, Filing.run_bind_ok (makeDataDir_of_find h.found),
    Filing.run_bind_ok looked,
    h.configured.loadScope]
  rfl

/-- A session's file takes the place of the one that it saved before. -/
theorem put {runId : String} (id : RunId runId) (units : List UnitHits) :
    Holds (tree.put (place ++ [HitFile.fileName runId])
      (.file (HitFile.ofUnits runId units).bytes)) dir place
        (Function.update saved runId (some units)) := by
  have nonempty : place ++ [HitFile.fileName runId] ≠ [] := by simp
  have is_dir := (FileTree.find_eq_ok_iff.mp h.found).2
  have ways := FileTree.sameWays_put nonempty (h.no_dir _) (fun target => h.no_link _ target)
    (HitFile.ofUnits runId units).bytes
  refine ⟨h.wellFormed.put nonempty (by simpa using is_dir) (h.no_dir _) _, ?_, fun name node => ?_,
    fun runId' units' saved' => ?_⟩
  · obtain ⟨resolved, is_dir⟩ := FileTree.find_eq_ok_iff.mp h.found
    exact FileTree.find_eq_ok_iff.mpr ⟨ways.resolve resolved, (ways.dirs place).mp is_dir⟩
  · rw [FileTree.node?_put nonempty]
    by_cases mine : name = HitFile.fileName runId
    · subst mine
      rw [if_pos rfl, Option.some.injEq]
      constructor
      · rintro rfl
        exact ⟨runId, units, by simp, rfl, rfl⟩
      · rintro ⟨runId', units', saved', same, rfl⟩
        obtain rfl := HitFile.fileName_injective same
        simp only [Function.update_self, Option.some.injEq] at saved'
        rw [saved']
    · have other : place ++ [name] ≠ place ++ [HitFile.fileName runId] := by simpa using mine
      rw [if_neg other, h.entries]
      constructor
      · rintro ⟨runId', units', saved', rfl, file⟩
        refine ⟨runId', units', ?_, rfl, file⟩
        rwa [Function.update_of_ne fun same => mine (by rw [same])]
      · rintro ⟨runId', units', saved', rfl, file⟩
        refine ⟨runId', units', ?_, rfl, file⟩
        rwa [Function.update_of_ne fun same => mine (by rw [same])] at saved'
  · by_cases mine : runId' = runId
    · exact mine ▸ id
    · rw [Function.update_of_ne mine] at saved'
      exact h.ids runId' units' saved'

/-- Flushing a session leaves its units on disk, and it always succeeds. -/
theorem flush {s : Session} (id : RunId s.runId) (home : s.dir = dir)
    (fresh : s.units = [] → saved s.runId = none) :
    ∃ path tree', s.flush.run tree = (({ s with dirty := false }, .ok path), tree') ∧
      Holds tree' dir place (Function.update saved s.runId (kept s.units)) := by
  by_cases unknown : s.units = []
  · have empty : s.units.isEmpty = true := List.isEmpty_iff.mpr unknown
    refine ⟨none, tree, Session.flush_unknown unknown, ?_⟩
    rw [kept, if_pos empty, ← fresh unknown, Function.update_eq_self]
    exact h
  · have known : kept s.units = some s.units := if_neg (by simpa using unknown)
    have written := HitFile.save_of_find id h.found (h.no_dir _) s.units
    rw [← home] at written
    have left := h.put id s.units
    rw [← known] at left
    refine ⟨some (Path.join s.dir (HitFile.fileName s.runId)), _, ?_, left⟩
    rw [Session.flush_known unknown, written]

/-- A session that is closed leaves its units on disk, if it says that it is dirty when they are
not there yet. -/
theorem close {s : Session} (id : RunId s.runId) (home : s.dir = dir)
    (fresh : s.units = [] → saved s.runId = none)
    (clean : s.dirty = false → saved s.runId = kept s.units) :
    Holds (s.close.run tree).2 dir place (Function.update saved s.runId (kept s.units)) := by
  cases dirty : s.dirty with
  | false =>
    rw [Session.close_clean dirty, ← clean dirty, Function.update_eq_self]
    exact h
  | true =>
    obtain ⟨path, tree', flushed, holds⟩ := h.flush id home fresh
    rw [Session.close_dirty dirty, flushed]
    exact holds

theorem find_fileName {runId : String} {units : List UnitHits} (known : saved runId = some units) :
    tree.find (Path.join dir (HitFile.fileName runId)) =
      .ok (place ++ [HitFile.fileName runId], .file (HitFile.ofUnits runId units).bytes) := by
  refine FileTree.find_eq_ok_iff.mpr ⟨?_, (h.entries _ _).mpr ⟨runId, units, known, rfl, rfl⟩⟩
  exact FileTree.resolve_join h.found (h.ids runId units known).entryName (h.no_link _)

theorem readHitFile {runId : String} {units : List UnitHits} (known : saved runId = some units) :
    Report.readHitFile tree (Path.join dir (HitFile.fileName runId)) =
      .ok (HitFile.ofUnits runId units) := by
  rw [Report.readHitFile, FileTree.read_of_find (h.find_fileName known)]
  exact HitFile.parse_bytes runId units

theorem isFile {runId : String} {units : List UnitHits} (known : saved runId = some units) :
    tree.isFile (Path.join dir (HitFile.fileName runId)) = true :=
  FileTree.isFile_iff.mpr ⟨_, _, h.find_fileName known⟩

theorem isDir : tree.isDir dir = true := FileTree.isDir_iff.mpr ⟨place, h.found⟩

end Holds

/-- The runs that left a file. -/
def savedRuns (saved : String → Option (List UnitHits)) (runs : List String) : List String :=
  runs.filter fun runId => (saved runId).isSome

theorem mem_savedRuns {saved : String → Option (List UnitHits)} {runs : List String}
    (all : ∀ runId, saved runId ≠ none → runId ∈ runs) {runId : String} :
    runId ∈ savedRuns saved runs ↔ ∃ units, saved runId = some units := by
  rw [savedRuns, List.mem_filter, Option.isSome_iff_exists]
  refine ⟨fun both => both.2, fun here => ⟨all runId ?_, here⟩⟩
  obtain ⟨units, known⟩ := here
  exact known ▸ Option.some_ne_none units

namespace Holds

variable {tree tree' : FileTree} {dir : String} {place : Place}
  {saved : String → Option (List UnitHits)} {runs : List String}

/-- The hit files of the directory are those of the runs that saved something. -/
theorem hitFiles (h : Holds tree dir place saved) (once : runs.Nodup)
    (all : ∀ runId, saved runId ≠ none → runId ∈ runs) :
    HitFiles tree dir
      ((savedRuns saved runs).map fun runId => Path.join dir (HitFile.fileName runId)) := by
  have relative : ∀ runId, Path.isAbsolute (HitFile.fileName runId) = false := fun runId =>
    Report.relative_of_isName (HitFile.isName_fileName runId)
  refine ⟨(once.filter _).map fun a b same => ?_, fun path => ?_⟩
  · exact HitFile.fileName_injective (Path.join_injective (relative a) (relative b) same)
  · rw [List.mem_map]
    constructor
    · rintro ⟨runId, mem, rfl⟩
      obtain ⟨units, known⟩ := (mem_savedRuns all).mp mem
      exact ⟨place, HitFile.fileName runId, _, h.found,
        (h.entries _ _).mpr ⟨runId, units, known, rfl, rfl⟩, HitFile.isName_fileName runId, rfl,
        h.isFile known⟩
    · rintro ⟨place', name, node, found, here, _, rfl, _⟩
      obtain rfl : place' = place := by
        have both := found.symm.trans h.found
        cases both
        rfl
      obtain ⟨runId, units, known, rfl, _⟩ := (h.entries _ _).mp here
      exact ⟨runId, (mem_savedRuns all).mpr ⟨units, known⟩, rfl⟩

/-- The merge sums up what was saved, and takes the kinds of units from there. It leaves nothing out,
and takes one file for each run that saved something. -/
theorem merge (h : Holds tree dir place saved) (once : runs.Nodup)
    (all : ∀ runId, saved runId ≠ none → runId ∈ runs) :
    ∃ report, Report.merge tree dir = .ok report ∧ report.skipped = [] ∧
      report.filesMerged = (savedRuns saved runs).length ∧
      UnitsSum none (runs.flatMap fun runId => (saved runId).getD []) report.units ∧
      ∀ u ∈ report.units, ∃ e ∈ runs.flatMap fun runId => (saved runId).getD [],
        e.unit = u.unit ∧ e.kind = u.kind := by
  obtain ⟨paths, files, merged⟩ := Report.merge_eq h.wellFormed h.isDir h.configured
  have order := files.perm (h.hitFiles once all)
  have reads : ∀ path ∈ paths, ∃ runId units, saved runId = some units ∧
      path = Path.join dir (HitFile.fileName runId) ∧
        Report.readHitFile tree path = .ok (HitFile.ofUnits runId units) := by
    intro path mem
    obtain ⟨runId, known, rfl⟩ := List.mem_map.mp (order.subset mem)
    obtain ⟨units, known⟩ := (mem_savedRuns all).mp known
    exact ⟨runId, units, known, rfl, h.readHitFile known⟩
  have entries : Report.entriesOf tree
      ((savedRuns saved runs).map fun runId => Path.join dir (HitFile.fileName runId)) =
        runs.flatMap fun runId => (saved runId).getD [] := by
    rw [Report.entriesOf, List.flatMap_map, savedRuns]
    clear once all order reads files merged
    induction runs with
    | nil => rfl
    | cons runId rest ih =>
      cases known : saved runId with
      | none => simpa [known] using ih
      | some units =>
        rw [List.filter_cons_of_pos (by rw [known]; rfl), List.flatMap_cons, List.flatMap_cons, ih,
          h.readHitFile known, known]
        rfl
  have shuffled : (Report.entriesOf tree paths).Perm
      (runs.flatMap fun runId => (saved runId).getD []) := entries ▸ order.flatMap_right _
  refine ⟨_, merged, ?_, ?_, ?_, fun u mem => ?_⟩
  · rw [Report.mergeFiles_eq]
    refine List.filterMap_eq_nil_iff.mpr fun path mem => ?_
    obtain ⟨runId, units, _, _, read⟩ := reads path mem
    rw [Report.skip?, read]
  · rw [Report.mergeFiles_eq]
    have merged : paths.filter (Report.isMerged tree) = paths := by
      refine List.filter_eq_self.mpr fun path mem => ?_
      obtain ⟨runId, units, _, _, read⟩ := reads path mem
      rw [Report.isMerged, read]
      rfl
    simp only [merged, order.length_eq, List.length_map]
  · exact (Report.mergeFiles_sum tree none paths).perm (shuffled.map _)
  · rw [Report.mergeFiles_eq] at mem
    obtain ⟨e, entry, same⟩ := origin_of_addUnits mem
    exact ⟨e, shuffled.subset entry, same⟩

/-- The merge tells nothing about how what was saved came to be there. -/
theorem merge_eq (h : Holds tree dir place saved) (h' : Holds tree' dir place saved) :
    Report.merge tree dir = Report.merge tree' dir := by
  have nodes : ∀ name, tree.node? (place ++ [name]) = tree'.node? (place ++ [name]) := by
    intro name
    ext node
    rw [h.entries, h'.entries]
  have reads : ∀ name node, tree.node? (place ++ [name]) = some node →
      tree.isFile (Path.join dir name) = tree'.isFile (Path.join dir name) ∧
        Report.readHitFile tree (Path.join dir name) =
          Report.readHitFile tree' (Path.join dir name) := by
    intro name node here
    obtain ⟨runId, units, known, rfl, _⟩ := (h.entries _ _).mp here
    rw [h.isFile known, h'.isFile known, h.readHitFile known, h'.readHitFile known]
    exact ⟨rfl, rfl⟩
  have paths_eq : hitFilePaths tree dir = hitFilePaths tree' dir := by
    rw [hitFilePaths, hitFilePaths, FileTree.list_of_find h.found, FileTree.list_of_find h'.found,
      ← h.wellFormed.childrenOf_eq h'.wellFormed nodes]
    refine congrArg Except.ok (List.filter_congr fun path mem => ?_)
    obtain ⟨⟨name, node⟩, listed, rfl⟩ := List.mem_map.mp mem
    exact (reads name node (h.wellFormed.mem_childrenOf.mp (List.mem_of_mem_filter listed))).1
  obtain ⟨paths, listed, files⟩ := Report.hitFilePaths_spec h.wellFormed h.found
  rw [Report.merge_of_paths (FileTree.contains_of_find h.found) h.configured listed,
    Report.merge_of_paths (FileTree.contains_of_find h'.found) h'.configured (paths_eq ▸ listed)]
  refine congrArg Except.ok (Report.mergeFiles_congr none fun path mem => ?_)
  obtain ⟨place', name, node, found, here, _, rfl, _⟩ := (files.mem_iff path).mp mem
  have both := found.symm.trans h.found
  cases both
  exact (reads name node here).2

end Holds
end ModuleSystem.Coverage
