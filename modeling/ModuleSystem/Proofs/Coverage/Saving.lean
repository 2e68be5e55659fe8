import ModuleSystem.Proofs.Coverage.Directory
import ModuleSystem.Proofs.FileTree.Replacing

namespace ModuleSystem

namespace Filing

variable {ε α β : Type}

theorem run_bind_error {x : Filing ε α} {f : α → Filing ε β} {tree tree' : FileTree} {e : ε}
    (h : x.run tree = (.error e, tree')) : (x >>= f).run tree = (.error e, tree') := by
  change (match x.run tree with | (r, tree) => (ExceptT.bindCont f r) tree) = _
  rw [h]
  rfl

/-- A computation that succeeds has succeeded in its first part. -/
theorem of_run_bind_ok {x : Filing ε α} {f : α → Filing ε β} {tree tree' : FileTree} {b : β}
    (h : (x >>= f).run tree = (.ok b, tree')) :
    ∃ a between, x.run tree = (.ok a, between) ∧ (f a).run between = (.ok b, tree') := by
  rcases run : x.run tree with ⟨first, between⟩
  cases first with
  | ok a =>
    rw [run_bind_ok run] at h
    exact ⟨a, between, rfl, h⟩
  | error e =>
    rw [run_bind_error run] at h
    cases h

theorem of_run_edit_ok {fault : IoError → ε} {change : FileTree → Except IoError FileTree}
    {tree tree' : FileTree} (h : (edit fault change).run tree = (.ok (), tree')) :
    change tree = .ok tree' := by
  rw [run_edit] at h
  split at h
  · next changed =>
    cases h
    exact changed
  · cases h

end Filing

namespace Coverage

/-- No link has the name of the file of a run. -/
def Unlinked (runId : String) (disk : FileTree) : Prop :=
  ∀ place target, disk.node? (place ++ [HitFile.fileName runId]) ≠ some (.link target)

/-- What was saved is read back. -/
theorem HitFile.read_of_save (file : HitFile) {dir path : String} {disk disk' : FileTree}
    (id : RunId file.runId) (unlinked : Unlinked file.runId disk)
    (saved : (file.save dir).run disk = (.ok path, disk')) :
    path = Path.join dir (fileName file.runId) ∧ disk'.read path = .ok file.bytes := by
  obtain ⟨_, made, directory, saved⟩ := Filing.of_run_bind_ok saved
  obtain ⟨_, _, replaced, saved⟩ := Filing.of_run_bind_ok saved
  have directory := Filing.of_run_edit_ok directory
  have replaced := Filing.of_run_edit_ok replaced
  cases saved
  refine ⟨rfl, FileTree.read_of_replace id.entryName (fun parent target link => ?_) replaced⟩
  exact unlinked parent target (FileTree.link_of_makeDirs directory link)

/-- Saving makes no links, also when it fails. -/
theorem HitFile.unlinked_of_save (file : HitFile) (dir : String) {disk : FileTree}
    (id : RunId file.runId) (unlinked : Unlinked file.runId disk) :
    Unlinked file.runId ((file.save dir).run disk).2 := by
  have directory := Filing.run_edit (CoverageError.data dir) (·.makeDirs dir) disk
  cases made : disk.makeDirs dir with
  | error e =>
    rw [made] at directory
    rw [HitFile.save, makeDataDir, Filing.run_bind_error directory]
    exact unlinked
  | ok between =>
    rw [made] at directory
    have still : Unlinked file.runId between := fun place target link =>
      unlinked place target (FileTree.link_of_makeDirs made link)
    have put := Filing.run_edit (CoverageError.data (Path.join dir (fileName file.runId)))
      (·.replace (Path.join dir (fileName file.runId)) file.bytes) between
    cases replaced : between.replace (Path.join dir (fileName file.runId)) file.bytes with
    | error e =>
      rw [replaced] at put
      rw [HitFile.save, makeDataDir, Filing.run_bind_ok directory, Filing.run_bind_error put]
      exact still
    | ok after =>
      rw [replaced] at put
      rw [HitFile.save, makeDataDir, Filing.run_bind_ok directory, Filing.run_bind_ok put]
      intro place target link
      exact still place target (FileTree.link_of_replace id.entryName replaced link)

namespace Session

variable {s : Session} {disk disk' : FileTree} {place : Place}

/-- Where the file of a session stands. -/
def path (s : Session) : String := Path.join s.dir (HitFile.fileName s.runId)

/-- What the file of a session holds, if it is there. -/
def onDisk (s : Session) (disk : FileTree) : Option (List UInt8) := (disk.read s.path).toOption

/-- The file of a session is there, it is trusted, and it holds what the session knows. -/
def Saved (s : Session) (disk : FileTree) : Prop :=
  ∃ bytes, disk.read s.path = .ok bytes ∧
    HitFile.parse bytes = .ok (HitFile.ofUnits s.runId s.units)

theorem saved_of_onDisk
    (holds : s.onDisk disk = some (HitFile.ofUnits s.runId s.units).bytes) : s.Saved disk := by
  rw [onDisk] at holds
  cases read : disk.read s.path with
  | error e =>
    rw [read] at holds
    cases holds
  | ok bytes =>
    rw [read] at holds
    cases holds
    exact ⟨_, read, HitFile.parse_bytes s.runId s.units⟩

theorem path_of_save {units : List UnitHits} {path : String} (id : RunId s.runId)
    (unlinked : Unlinked s.runId disk)
    (saved : ((HitFile.ofUnits s.runId units).save s.dir).run disk = (.ok path, disk')) :
    path = s.path := (HitFile.read_of_save (HitFile.ofUnits s.runId _) id unlinked saved).1

theorem saved_of_save {units : List UnitHits} (id : RunId s.runId) (unlinked : Unlinked s.runId disk)
    (saved : ((HitFile.ofUnits s.runId units).save s.dir).run disk = (.ok s.path, disk')) :
    Unlinked s.runId disk' ∧
      s.onDisk disk' = some (HitFile.ofUnits s.runId units).bytes := by
  have still := HitFile.unlinked_of_save (HitFile.ofUnits s.runId units) s.dir id unlinked
  rw [saved] at still
  refine ⟨still, ?_⟩
  rw [onDisk, (HitFile.read_of_save (HitFile.ofUnits s.runId _) id unlinked saved).2]
  rfl

/-- The directory of a session works: the file of the session can be written. -/
def Works (s : Session) (disk : FileTree) : Prop :=
  ∃ path disk', ((HitFile.ofUnits s.runId s.units).save s.dir).run disk = (.ok path, disk')

/-- A directory works if it is there, and no other directory stands where the file belongs. -/
theorem works_of_find (id : RunId s.runId) (found : disk.find s.dir = .ok (place, .dir))
    (no_dir : disk.node? (place ++ [HitFile.fileName s.runId]) ≠ some .dir) : s.Works disk :=
  ⟨_, _, HitFile.save_of_find id found no_dir s.units⟩

/-- A session that is closed leaves what it knows, if its directory works. -/
theorem saved_of_close (id : RunId s.runId) (unlinked : Unlinked s.runId disk)
    (dirty : s.dirty = true) (known : s.units ≠ []) (works : s.Works disk) :
    s.Saved (s.close.run disk).2 := by
  obtain ⟨path, disk', saved⟩ := works
  obtain ⟨rfl, reads⟩ := HitFile.read_of_save (HitFile.ofUnits s.runId _) id unlinked saved
  rw [close_dirty dirty, flush_known known, saved]
  exact ⟨_, reads, HitFile.parse_bytes s.runId s.units⟩

end Session
end Coverage
end ModuleSystem
