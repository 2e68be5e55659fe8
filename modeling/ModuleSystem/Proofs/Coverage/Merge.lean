import ModuleSystem.Proofs.Coverage.Sums
import ModuleSystem.Proofs.FileTree.Paths
import ModuleSystem.Proofs.FileTree.Places

namespace ModuleSystem.Coverage

/-- What the descriptor of a directory says, if there is one. -/
inductive Configured (tree : FileTree) (dir : String) : Option Scope → Prop
  | absent (missing : tree.read (scopePath dir) = .error .notFound) : Configured tree dir none
  | valid {bytes : List UInt8} {scope : Scope} (read : tree.read (scopePath dir) = .ok bytes)
      (parsed : Scope.parse bytes = .ok scope) : Configured tree dir (some scope)

theorem Configured.loadScope {tree : FileTree} {dir : String} {scope : Option Scope}
    (h : Configured tree dir scope) : loadScope tree dir = .ok scope := by
  cases h with
  | absent missing => simp only [Coverage.loadScope, missing]
  | valid read parsed => simp only [Coverage.loadScope, read, parsed]

/-- The paths of all hit files in a directory, each of them once. -/
structure HitFiles (tree : FileTree) (dir : String) (paths : List String) : Prop where
  once : paths.Nodup
  mem_iff : ∀ path, path ∈ paths ↔ ∃ place name node, tree.find dir = .ok (place, .dir) ∧
    tree.node? (place ++ [name]) = some node ∧ HitFile.isName name = true ∧
      path = Path.join dir name ∧ tree.isFile path = true

theorem HitFiles.perm {tree : FileTree} {dir : String} {paths paths' : List String}
    (h : HitFiles tree dir paths) (h' : HitFiles tree dir paths') : paths.Perm paths' :=
  (List.perm_ext_iff_of_nodup h.once h'.once).mpr fun path =>
    (h.mem_iff path).trans (h'.mem_iff path).symm

/-- A file that is not merged: it cannot be read, or what it says is not to be trusted. -/
def Rejected (tree : FileTree) (path : String) : Prop :=
  (∃ e, tree.read path = .error e) ∨
    ∃ bytes reason, tree.read path = .ok bytes ∧ HitFile.parse bytes = .error reason

/-- What a file says that is merged. -/
def Trusted (tree : FileTree) (path : String) (file : HitFile) : Prop :=
  ∃ bytes, tree.read path = .ok bytes ∧ HitFile.parse bytes = .ok file

namespace Report

variable {tree : FileTree} {path : String}

theorem readHitFile_eq_ok_iff {file : HitFile} :
    readHitFile tree path = .ok file ↔ Trusted tree path file := by
  unfold readHitFile Trusted
  cases tree.read path <;> simp

theorem rejected_iff : Rejected tree path ↔ ∃ reason, readHitFile tree path = .error reason := by
  unfold readHitFile Rejected
  cases tree.read path <;> simp

/-- All entries of the files that are merged. -/
def entriesOf (tree : FileTree) (paths : List String) : List UnitHits :=
  paths.flatMap fun path =>
    match readHitFile tree path with
    | .ok file => file.units
    | .error _ => []

def isMerged (tree : FileTree) (path : String) : Bool := (readHitFile tree path).isOk

def skip? (tree : FileTree) (path : String) : Option SkippedFile :=
  match readHitFile tree path with
  | .ok _ => none
  | .error reason => some ⟨path, reason⟩

theorem mem_entriesOf {paths : List String} {u : UnitHits} :
    u ∈ entriesOf tree paths ↔ ∃ path ∈ paths, ∃ file, Trusted tree path file ∧ u ∈ file.units := by
  rw [entriesOf, List.mem_flatMap]
  refine exists_congr fun path => and_congr_right fun _ => ?_
  simp only [← readHitFile_eq_ok_iff]
  cases readHitFile tree path <;> simp

/-- A report as the sum of some files. -/
structure IsMerge (tree : FileTree) (scope : Option Scope) (paths : List String)
    (report : Report) : Prop where
  /-- Each file counts once, either as merged or as skipped. -/
  each_once : report.filesMerged + report.skipped.length = paths.length
  skipped_once : (report.skipped.map (·.path)).Sublist paths
  skipped_iff : ∀ path, (∃ s ∈ report.skipped, s.path = path) ↔ path ∈ paths ∧ Rejected tree path
  reported_iff : ∀ name, (∃ u ∈ report.units, u.unit = name) ↔
    ∃ path ∈ paths, ∃ file, Trusted tree path file ∧
      ∃ u ∈ file.units, u.unit = name ∧ inScope scope name u.kind = true
  /-- The count of a span is the sum of all hits that entries in scope list for it, cut off at the
  largest count, and nothing if none of them lists it. -/
  hits_eq : ∀ name span, report.hits name span =
    tally span (listing scope name (entriesOf tree paths))
  units_ordered : report.units.Pairwise fun u v => u.unit < v.unit
  spans_ordered : ∀ u ∈ report.units, u.spans.Pairwise fun s t => s.span < t.span
  unit_iff : ∀ name u, report.unit name = some u ↔ u ∈ report.units ∧ u.unit = name
  hits_iff : ∀ u ∈ report.units, ∀ span count, u.hits span = some count ↔ ⟨span, count⟩ ∈ u.spans

theorem foldl_addFile (tree : FileTree) (scope : Option Scope) (paths : List String)
    (report : Report) :
    paths.foldl (fun report path => report.addFile scope path (readHitFile tree path)) report =
      ⟨(entriesOf tree paths).foldl (addUnit scope) report.units,
        report.filesMerged + (paths.filter (isMerged tree)).length,
        report.skipped ++ paths.filterMap (skip? tree)⟩ := by
  induction paths generalizing report with
  | nil => simp [entriesOf]
  | cons path rest ih =>
    rw [List.foldl_cons, ih]
    cases outcome : readHitFile tree path with
    | ok file =>
      have kept : isMerged tree path = true := by rw [isMerged, outcome]; rfl
      have none : skip? tree path = none := by rw [skip?, outcome]
      rw [List.filter_cons_of_pos kept, List.filterMap_cons_none none, List.length_cons]
      simp [addFile, entriesOf, outcome, Nat.add_assoc, Nat.add_comm 1]
    | error reason =>
      have left : ¬isMerged tree path = true := by rw [isMerged, outcome]; exact Bool.false_ne_true
      have some : skip? tree path = some ⟨path, reason⟩ := by rw [skip?, outcome]
      rw [List.filter_cons_of_neg left, List.filterMap_cons_some some]
      simp [addFile, entriesOf, outcome]

theorem mergeFiles_eq (tree : FileTree) (scope : Option Scope) (paths : List String) :
    mergeFiles tree scope paths =
      ⟨(entriesOf tree paths).foldl (addUnit scope) [],
        (paths.filter (isMerged tree)).length,
        paths.filterMap (skip? tree)⟩ := by
  rw [mergeFiles, foldl_addFile]
  simp [empty]

theorem mergeFiles_sum (tree : FileTree) (scope : Option Scope) (paths : List String) :
    UnitsSum scope (entriesOf tree paths) (mergeFiles tree scope paths).units := by
  rw [mergeFiles_eq]
  exact (UnitsSum.nil scope).addUnits _

theorem mergeFiles_congr {tree' : FileTree} (scope : Option Scope) {paths : List String}
    (same : ∀ path ∈ paths, readHitFile tree path = readHitFile tree' path) :
    mergeFiles tree scope paths = mergeFiles tree' scope paths := by
  refine List.foldl_ext _ _ _ fun report path mem => ?_
  rw [same path mem]

theorem map_skip? (tree : FileTree) (paths : List String) :
    (paths.filterMap (skip? tree)).map (·.path) =
      paths.filter fun path => !isMerged tree path := by
  induction paths with
  | nil => rfl
  | cons path rest ih =>
    rw [List.filterMap_cons, List.filter_cons, skip?, isMerged]
    cases readHitFile tree path with
    | ok file => exact ih
    | error reason => exact congrArg (path :: ·) ih

/-- Units and spans are found by halving. -/
theorem unit_eq_unitOf {scope : Option Scope} {entries : List UnitHits} {report : Report}
    (h : UnitsSum scope entries report.units) (name : String) :
    report.unit name = unitOf name report.units := h.ordered.bisect name

theorem hits_eq_hitsOf {listed : List SpanHits} {u : UnitHits} (h : IsSum listed u.spans)
    (span : Span) : u.hits span = hitsOf span u.spans := by
  rw [UnitHits.hits, hitsOf_eq]
  exact congrArg _ (h.ordered.bisect span)

theorem hits_eq_tally {scope : Option Scope} {entries : List UnitHits} {report : Report}
    (h : UnitsSum scope entries report.units) (name : String) (span : Span) :
    report.hits name span = tally span (listing scope name entries) := by
  rw [hits, unit_eq_unitOf h, ← h.hits name span]
  cases found : unitOf name report.units with
  | none => rfl
  | some u => exact hits_eq_hitsOf (h.counted name u found) span

theorem mergeFiles_isMerge (tree : FileTree) (scope : Option Scope) (paths : List String) :
    (mergeFiles tree scope paths).IsMerge tree scope paths := by
  have sum := mergeFiles_sum tree scope paths
  have skipped : (mergeFiles tree scope paths).skipped = paths.filterMap (skip? tree) := by
    rw [mergeFiles_eq]
  have skipped_paths := map_skip? tree paths
  rw [← skipped] at skipped_paths
  refine ⟨?_, ?_, fun path => ?_, fun name => ?_, hits_eq_tally sum, sum.ordered,
    fun u mem => (sum.isSum mem).ordered, fun name u => ?_, fun u mem span count => ?_⟩
  · have merged : (mergeFiles tree scope paths).filesMerged =
        (paths.filter (isMerged tree)).length := by
      rw [mergeFiles_eq]
    have left := congrArg List.length skipped_paths
    rw [List.length_map] at left
    rw [merged, left]
    exact List.length_eq_length_filter_add _ |>.symm
  · rw [skipped_paths]
    exact List.filter_sublist
  · have listed : (∃ s ∈ (mergeFiles tree scope paths).skipped, s.path = path) ↔
        path ∈ paths.filter fun path => !isMerged tree path := by
      rw [← skipped_paths, List.mem_map]
    rw [listed, List.mem_filter, rejected_iff]
    refine and_congr_right fun _ => ?_
    cases outcome : readHitFile tree path <;> simp [isMerged, outcome, Except.isOk, Except.toBool]
  · have found := sum.reported name
    rw [shares_ne_nil_iff, Option.isSome_iff_exists] at found
    simp only [sum.mem_iff, mem_entriesOf] at found
    rw [found]
    constructor
    · rintro ⟨u, ⟨path, mem, file, trusted, inside⟩, rfl, included⟩
      exact ⟨path, mem, file, trusted, u, inside, rfl, included⟩
    · rintro ⟨path, mem, file, trusted, u, inside, rfl, included⟩
      exact ⟨u, ⟨path, mem, file, trusted, inside⟩, rfl, included⟩
  · rw [unit_eq_unitOf sum]
    exact sum.mem_iff
  · rw [hits_eq_hitsOf (sum.isSum mem)]
    exact (sum.isSum mem).mem_iff.symm

theorem relative_of_isName {name : String} (h : HitFile.isName name = true) :
    Path.isAbsolute name = false := by
  refine Bool.eq_false_iff.mpr fun absolute => ?_
  rw [HitFile.isName, Bool.and_eq_true, String.startsWith_string_iff] at h
  obtain ⟨⟨more, begins⟩, _⟩ := h
  obtain ⟨rest, slash⟩ := Path.isAbsolute_iff.mp absolute
  rw [← begins] at slash
  simp at slash

/-- A directory gives up the paths of its hit files. -/
theorem hitFilePaths_spec {dir : String} {place : Place} (wf : tree.WellFormed)
    (found : tree.find dir = .ok (place, .dir)) :
    ∃ paths, hitFilePaths tree dir = .ok paths ∧ HitFiles tree dir paths := by
  refine ⟨_, by rw [hitFilePaths, FileTree.list_of_find found], ?_, fun path => ?_⟩
  · have names : ((tree.childrenOf place).filter fun entry => HitFile.isName entry.1).Pairwise
        fun a b => a.1 ≠ b.1 :=
      (List.pairwise_map.mp (wf.childrenOf_nodup place)).filter _
    refine List.Nodup.filter _ (List.pairwise_map.mpr ?_)
    refine List.Pairwise.imp_of_mem (fun {a b} mem mem' other same => other ?_) names
    exact Path.join_injective (relative_of_isName (List.mem_filter.mp mem).2)
      (relative_of_isName (List.mem_filter.mp mem').2) same
  · rw [List.mem_filter, List.mem_map]
    constructor
    · rintro ⟨⟨⟨name, node⟩, mem, rfl⟩, file⟩
      obtain ⟨listed, named⟩ := List.mem_filter.mp mem
      exact ⟨place, name, node, found, wf.mem_childrenOf.mp listed, named, rfl, file⟩
    · rintro ⟨place', name, node, found', here, named, rfl, file⟩
      obtain rfl : place' = place := by
        rw [found] at found'
        cases found'
        rfl
      exact ⟨⟨(name, node), List.mem_filter.mpr ⟨wf.mem_childrenOf.mpr here, named⟩, rfl⟩, file⟩

theorem merge_of_paths {dir : String} {scope : Option Scope} {paths : List String}
    (there : tree.contains dir = true) (configured : Configured tree dir scope)
    (listed : hitFilePaths tree dir = .ok paths) :
    merge tree dir = .ok (mergeFiles tree scope paths) := by
  simp only [merge, there, configured.loadScope, listed]
  rfl

/-- A directory with its descriptor in order is merged. -/
theorem merge_eq {dir : String} {scope : Option Scope} (wf : tree.WellFormed)
    (isDir : tree.isDir dir = true) (configured : Configured tree dir scope) :
    ∃ paths, HitFiles tree dir paths ∧ merge tree dir = .ok (mergeFiles tree scope paths) := by
  obtain ⟨place, found⟩ := FileTree.isDir_iff.mp isDir
  obtain ⟨paths, listed, files⟩ := hitFilePaths_spec wf found
  exact ⟨paths, files, merge_of_paths (FileTree.contains_of_find found) configured listed⟩

/-- The merge of a data directory counts every hit file in it once, and it is the sum of those that
are not rejected. Whatever its files are called, and in whatever order files, entries and spans
come, the sum has the same names, spans and counts. -/
theorem merge_complete {dir : String} {scope : Option Scope} (wf : tree.WellFormed)
    (isDir : tree.isDir dir = true) (configured : Configured tree dir scope) :
    ∃ report paths, merge tree dir = .ok report ∧ HitFiles tree dir paths ∧
      report.IsMerge tree scope paths ∧
      ∀ (tree' : FileTree) (dir' : String) (report' : Report) (paths' : List String),
        tree'.WellFormed → tree'.isDir dir' = true → Configured tree' dir' scope →
        HitFiles tree' dir' paths' →
        ((entriesOf tree paths).map (·.content)).Perm ((entriesOf tree' paths').map (·.content)) →
        merge tree' dir' = .ok report' → figures report.units = figures report'.units := by
  obtain ⟨paths, files, merged⟩ := merge_eq wf isDir configured
  refine ⟨_, paths, merged, files, mergeFiles_isMerge tree scope paths, ?_⟩
  intro tree' dir' report' paths' wf' isDir' configured' files' same merged'
  obtain ⟨read, files'', merged''⟩ := merge_eq wf' isDir' configured'
  rw [merged'] at merged''
  cases merged''
  have order : ((entriesOf tree' paths').map (·.content)).Perm
      ((entriesOf tree' read).map (·.content)) :=
    ((files'.perm files'').flatMap_right _).map _
  exact (mergeFiles_sum tree scope paths).figures_eq (mergeFiles_sum tree' scope read)
    (same.trans order)

/-- A directory with two hit files that count the same span, and one that is broken. -/
def recorded : FileTree :=
  let counted (runId : String) (hits : UInt64) : HitFile :=
    .ofUnits runId [⟨"demo/app", .module, "app.loam", [⟨⟨1, 1⟩, hits⟩]⟩]
  ⟨[(["data"], .dir), (["data", "hits-a.json"], .file (counted "a" 0xffffffffffffffff).bytes),
    (["data", "hits-b.json"], .file (counted "b" 1).bytes), (["data", "hits-c.json"], .file [0x7b])],
    []⟩

theorem recorded_wellFormed : recorded.WellFormed := by
  refine ⟨by decide, fun e mem => ?_⟩
  simp only [recorded, List.mem_cons, List.not_mem_nil, or_false] at mem
  obtain rfl | rfl | rfl | rfl := mem <;> exact ⟨by simp, rfl⟩

theorem merge_complete_recorded :
    recorded.isDir "/data" = true ∧ Configured recorded "/data" none ∧
      ∃ report paths, merge recorded "/data" = .ok report ∧ HitFiles recorded "/data" paths ∧
        report.IsMerge recorded none paths := by
  have isDir : recorded.isDir "/data" = true := by decide +kernel
  have missing : recorded.read (scopePath "/data") = .error .notFound := by decide +kernel
  obtain ⟨report, paths, merged, files, sum, _⟩ :=
    merge_complete recorded_wellFormed isDir (.absent missing)
  exact ⟨isDir, .absent missing, report, paths, merged, files, sum⟩

end Report
end ModuleSystem.Coverage
