import ModuleSystem.Proofs.FileTree.Following
import ModuleSystem.Proofs.Json.Progress

namespace ModuleSystem.FileTree

variable {tree tree' : FileTree}

theorem makeDir_ok {start : Place} {names : List String}
    (made : tree.makeDir start names = .ok tree') :
    ∃ place, place ≠ [] ∧ tree' = tree.put place .dir := by
  obtain ⟨parent, _, made⟩ := Except.of_bind_ok made
  split at made
  · next name _ _ =>
    split at made
    · cases made
    split at made
    · cases made
    exact ⟨parent ++ [name], by simp, (Except.ok.inj made).symm⟩
  all_goals cases made

section

variable {place : Place} {target : String}

theorem link_of_makeDir {start : Place} {names : List String}
    (made : tree.makeDir start names = .ok tree')
    (link : tree'.node? place = some (.link target)) :
    tree.node? place = some (.link target) := by
  obtain ⟨new, nonempty, rfl⟩ := makeDir_ok made
  rw [node?_put nonempty] at link
  split at link
  · cases link
  · exact link

theorem link_of_makeDirsFrom {start : Place} {names : List String}
    (made : makeDirsFrom start names tree = .ok tree')
    (link : tree'.node? place = some (.link target)) :
    tree.node? place = some (.link target) := by
  induction names generalizing tree' with
  | nil =>
    cases made
    exact link
  | cons name parents ih =>
    rw [makeDirsFrom] at made
    split at made
    · next made' =>
      cases made
      exact link_of_makeDir made' link
    · obtain ⟨above, first, made⟩ := Except.of_bind_ok made
      split at made
      · cases made
        exact ih first link
      · exact ih first (link_of_makeDir made link)
    · split at made
      · cases made
        exact link
      · cases made

theorem link_of_makeDirs {path : String} (made : tree.makeDirs path = .ok tree')
    (link : tree'.node? place = some (.link target)) :
    tree.node? place = some (.link target) := by
  rw [makeDirs] at made
  split at made
  · cases made
  · exact link_of_makeDirsFrom made link

end

section

variable {dir name : String} {place : Place}

theorem start_entry (entry : Path.Plain name) :
    tree.start (Path.join dir name) = tree.start dir := by
  by_cases empty : dir = ""
  · have none : Path.isAbsolute "" = false := by decide
    rw [empty, Path.join_empty, start, start, entry.not_absolute, none]
  · exact start_join entry empty

theorem entry_ne_empty (entry : Path.Plain name) : Path.join dir name ≠ "" := by
  by_cases empty : dir = ""
  · rw [empty, Path.join_empty]
    exact entry.nonempty
  · exact join_ne_empty entry empty

/-- The way to the last place of a path, if the path has one. -/
theorem goes_of_lastPlace (entry : EntryName name)
    (last : tree.lastPlace (Path.join dir name) = .ok place) :
    '\x00' ∉ (Path.join dir name).toList ∧ ∃ parent, place = parent ++ [name] ∧
      tree.node? parent = some .dir ∧
      Goes tree linkLimit (tree.start dir) (Path.bare dir) parent := by
  simp only [lastPlace, Path.components_entry entry.toPlain, List.getLast?_concat,
    List.dropLast_concat] at last
  split at last
  · next odd =>
    -- The name is plain, so it is a NUL that the path is refused for.
    have nul : (Path.join dir name).toList.contains '\x00' = true := by
      simpa [entry.not_here, entry.not_up] using odd
    rw [resolve, if_pos nul] at last
    cases last
  next plain =>
  obtain ⟨parent, goes, last⟩ := Except.of_bind_ok last
  split at last
  · cases last
  next is_dir =>
  split at last
  · cases last
  refine ⟨by simp_all, parent, (Except.ok.inj last).symm, by simpa using is_dir, ?_⟩
  rw [start_entry entry.toPlain] at goes
  exact goes_of_follow goes

theorem link_of_replace {bytes : List UInt8} {there : Place} {target : String}
    (entry : EntryName name) (replaced : tree.replace (Path.join dir name) bytes = .ok tree')
    (link : tree'.node? there = some (.link target)) :
    tree.node? there = some (.link target) := by
  obtain ⟨place, last, put⟩ := Except.of_bind_ok replaced
  obtain ⟨_, parent, rfl, _⟩ := goes_of_lastPlace entry last
  split at put
  · cases put
  cases put
  rw [node?_put (by simp)] at link
  split at link
  · cases link
  · exact link

theorem read_of_replace {bytes : List UInt8} (entry : EntryName name)
    (no_link : ∀ parent target, tree.node? (parent ++ [name]) ≠ some (.link target))
    (replaced : tree.replace (Path.join dir name) bytes = .ok tree') :
    tree'.read (Path.join dir name) = .ok bytes := by
  obtain ⟨place, last, put⟩ := Except.of_bind_ok replaced
  obtain ⟨text, parent, rfl, is_dir, goes⟩ := goes_of_lastPlace entry last
  have nonempty : parent ++ [name] ≠ [] := by simp
  split at put
  · cases put
  next no_dir =>
  cases put
  have ways := sameWays_put nonempty no_dir (no_link parent) bytes
  have here : (tree.put (parent ++ [name]) (.file bytes)).node? (parent ++ [name]) =
      some (.file bytes) := by
    rw [node?_put nonempty, if_pos rfl]
  have onward := (goes.same_ways ways).concat ((ways.dirs parent).mp is_dir) entry.enters
    (by simp [here])
  apply read_of_find
  apply find_eq_ok_iff.mpr
  refine ⟨resolve_eq_ok_iff.mpr ⟨text, entry_ne_empty entry.toPlain, ?_⟩, here⟩
  rw [start_entry entry.toPlain, Path.components_entry entry.toPlain]
  exact onward

end

end ModuleSystem.FileTree
