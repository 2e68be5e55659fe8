import ModuleSystem.Proofs.FileTree.Replacing

namespace ModuleSystem

namespace Path

variable {base : String} {names : List String}

theorem bare_below (plain : ∀ name ∈ names, Plain name) :
    bare (names.foldl join base) = bare base ++ names := by
  induction names generalizing base with
  | nil => rw [List.append_nil, List.foldl_nil]
  | cons name rest ih =>
    obtain ⟨first, others⟩ := List.forall_mem_cons.mp plain
    rw [List.foldl_cons, ih others, bare_join first, List.append_assoc, List.singleton_append]

theorem components_below (plain : ∀ name ∈ names, Plain name) (nonempty : names ≠ []) :
    components (names.foldl join base) = bare base ++ names := by
  induction names using List.reverseRecOn with
  | nil => exact absurd rfl nonempty
  | append_singleton names name _ =>
    have last := plain name List.mem_concat_self
    rw [List.foldl_append, List.foldl_cons, List.foldl_nil, components_entry last,
      bare_below fun name mem => plain name (List.mem_append_left _ mem), List.append_assoc]

theorem mem_below {c : Char} (plain : ∀ name ∈ names, Plain name) (mem : c ∈ base.toList) :
    c ∈ (names.foldl join base).toList := by
  induction names generalizing base with
  | nil => exact mem
  | cons name rest ih =>
    obtain ⟨first, others⟩ := List.forall_mem_cons.mp plain
    apply ih others
    have filled : base.isEmpty = false := by
      rw [String.isEmpty_eq_false_iff]
      rintro rfl
      cases mem
    simp only [join, first.not_absolute, filled, Bool.or_false, Bool.false_eq_true, if_false]
    split <;> simp [mem]

end Path

namespace FileTree

variable {tree : FileTree} {dir : String} {top : Place}

theorem start_below {names : List String} (plain : ∀ name ∈ names, Path.Plain name) :
    tree.start (names.foldl Path.join dir) = tree.start dir := by
  induction names generalizing dir with
  | nil => rfl
  | cons name rest ih =>
    obtain ⟨first, others⟩ := List.forall_mem_cons.mp plain
    rw [List.foldl_cons, ih others, start_entry first]

/-- All that lies above something is a directory. -/
theorem WellFormed.dir_above (wf : tree.WellFormed) {names : List String} {node : FileNode}
    (nonempty : names ≠ []) (here : tree.node? (top ++ names) = some node) :
    tree.node? top = some .dir := by
  induction names using List.reverseRecOn generalizing node with
  | nil => exact absurd rfl nonempty
  | append_singleton names name ih =>
    rw [← List.append_assoc, node?_concat] at here
    have entry := (lookup_eq_some_iff wf.nodup).mp here
    have parent := (wf.parent_dir _ entry).2
    rw [List.dropLast_concat] at parent
    by_cases last : names = []
    · rwa [last, List.append_nil] at parent
    · exact ih last parent

/-- What lies below a directory is found under its names, if it is no link. -/
theorem find_below (wf : tree.WellFormed) (found : tree.find dir = .ok (top, .dir))
    {names : List String} (entries : ∀ name ∈ names, EntryName name) {node : FileNode}
    (here : tree.node? (top ++ names) = some node) (no_link : ∀ target, node ≠ .link target) :
    tree.find (names.foldl Path.join dir) = .ok (top ++ names, node) := by
  induction names using List.reverseRecOn generalizing node with
  | nil =>
    rw [List.append_nil, (find_eq_ok_iff.mp found).2] at here
    cases here
    rw [List.append_nil]
    exact found
  | append_singleton names name ih =>
    rw [← List.append_assoc] at here ⊢
    have above := wf.dir_above (List.cons_ne_nil name []) here
    have inside := ih (fun name mem => entries name (List.mem_append_left _ mem)) above (by simp)
    rw [List.foldl_append]
    apply find_eq_ok_iff.mpr
    refine ⟨resolve_join inside (entries name List.mem_concat_self) fun target link => ?_, here⟩
    rw [here] at link
    exact no_link target (Option.some.inj link)

theorem Goes.short {links : Nat} {here there : Place} {names : List String}
    (h : Goes tree links here names there) {name : String} (mem : name ∈ names)
    (not_here : name ≠ ".") (not_up : name ≠ "..") : name.utf8ByteSize ≤ 255 := by
  induction h with
  | arrive => cases mem
  | stay _ _ ih =>
    obtain same | mem := List.mem_cons.mp mem
    · exact absurd same not_here
    · exact ih mem
  | up _ _ ih =>
    obtain same | mem := List.mem_cons.mp mem
    · exact absurd same not_up
    · exact ih mem
  | link _ enters _ _ ih =>
    obtain rfl | mem := List.mem_cons.mp mem
    · exact enters.short
    · exact ih (List.mem_append_right _ mem)
  | down _ enters _ _ _ ih =>
    obtain rfl | mem := List.mem_cons.mp mem
    · exact enters.short
    · exact ih mem

theorem Goes.place_eq {links : Nat} {here there there' : Place} {names : List String}
    (h : Goes tree links here names there) (h' : Goes tree links here names there') :
    there = there' :=
  Except.ok.inj (h.follow.symm.trans h'.follow)

/-- Names lead down, one by one, where there are no links. -/
theorem Goes.place_below {links : Nat} {here there : Place} {above names : List String}
    (goes : Goes tree links here above top) (plain : ∀ name ∈ names, Path.Plain name)
    (no_link : ∀ before name, before ++ [name] <+: names →
      ∀ target, tree.node? (top ++ before ++ [name]) ≠ some (.link target))
    (h : Goes tree links here (above ++ names) there) : there = top ++ names := by
  induction names using List.reverseRecOn generalizing there with
  | nil =>
    rw [List.append_nil] at h ⊢
    exact h.place_eq goes
  | append_singleton names name ih =>
    have last := plain name List.mem_concat_self
    have short := h.short (List.mem_append_right _ List.mem_concat_self) last.not_here last.not_up
    rw [← List.append_assoc] at h ⊢
    obtain ⟨parent, before, is_dir⟩ := h.before_last
    have parent_eq : parent = top ++ names := by
      apply ih (fun name mem => plain name (List.mem_append_left _ mem)) _ before
      intro first next within
      exact no_link first next (within.trans (List.prefix_append _ _))
    have onward := before.concat is_dir ⟨last.not_here, last.not_up, short⟩ <| by
      rw [parent_eq]
      exact no_link names name List.prefix_rfl
    rw [h.place_eq onward, parent_eq]

theorem Goes.above {links : Nat} {here there : Place} {names more : List String}
    (h : Goes tree links here (names ++ more) there) (nonempty : more ≠ []) :
    ∃ top, Goes tree links here names top ∧ tree.node? top = some .dir := by
  induction more using List.reverseRecOn generalizing there with
  | nil => exact absurd rfl nonempty
  | append_singleton more name ih =>
    rw [← List.append_assoc] at h
    obtain ⟨parent, before, is_dir⟩ := h.before_last
    by_cases last : more = []
    · rw [last, List.append_nil] at before
      exact ⟨parent, before, is_dir⟩
    · exact ih before last

/-- A path that goes down from a directory leads through it, and straight down from there. -/
theorem find_above {base name : String} {names : List String} {place : Place} {node : FileNode}
    (plain : Path.Plain name) (nonempty : names ≠ []) (each : ∀ name ∈ names, Path.Plain name)
    (no_link : ∀ top, tree.find (Path.join base name) = .ok (top, .dir) →
      ∀ names target, tree.node? (top ++ names) ≠ some (.link target))
    (found : tree.find (names.foldl Path.join (Path.join base name)) = .ok (place, node)) :
    ∃ top, tree.find (Path.join base name) = .ok (top, .dir) ∧ place = top ++ names := by
  obtain ⟨resolved, _⟩ := find_eq_ok_iff.mp found
  obtain ⟨text, _, goes⟩ := resolve_eq_ok_iff.mp resolved
  rw [start_below each, Path.components_below each nonempty, Path.bare_join plain] at goes
  obtain ⟨top, toTop, is_dir⟩ := goes.above nonempty
  have dir : tree.find (Path.join base name) = .ok (top, .dir) := by
    apply find_eq_ok_iff.mpr
    refine ⟨resolve_eq_ok_iff.mpr ⟨fun nul => text (Path.mem_below each nul), ?_, ?_⟩, is_dir⟩
    · exact entry_ne_empty plain
    · rw [Path.components_entry plain]
      exact toTop
  refine ⟨top, dir, toTop.place_below each (fun before name _ target => ?_) goes⟩
  rw [List.append_assoc]
  exact no_link top dir _ target

end FileTree
end ModuleSystem
