import ModuleSystem.Proofs.FileTree.Following

namespace ModuleSystem.FileTree

def without (tree : FileTree) (gone : List Place) : FileTree :=
  { tree with entries := tree.entries.filter (·.1 ∉ gone) }

/-- All of the places hold files. -/
def AreFiles (tree : FileTree) (gone : List Place) : Prop :=
  ∀ place ∈ gone, ∃ bytes, tree.node? place = some (.file bytes)

variable {tree : FileTree} {gone : List Place} {place : Place} {path : String}

theorem lookup_without (entries : List (Place × FileNode)) (gone : List Place) (place : Place) :
    (entries.filter (·.1 ∉ gone)).lookup place =
      if place ∈ gone then none else entries.lookup place := by
  induction entries with
  | nil => simp
  | cons e rest ih =>
    by_cases left : e.1 ∈ gone
    · rw [List.filter_cons_of_neg (by simpa using left), ih]
      split
      · rfl
      · next kept =>
        have other : place ≠ e.1 := fun same => kept (same ▸ left)
        rw [List.lookup_cons, beq_false_of_ne other]
    · rw [List.filter_cons_of_pos (by simpa using left), List.lookup_cons, List.lookup_cons, ih]
      by_cases here : place = e.1
      · subst here
        simp [left]
      · rw [beq_false_of_ne here]

theorem node?_without (files : tree.AreFiles gone) (place : Place) :
    (tree.without gone).node? place = if place ∈ gone then none else tree.node? place := by
  cases place with
  | nil =>
    have top : [] ∉ gone := by
      intro mem
      obtain ⟨bytes, none⟩ := files [] mem
      cases none
    rw [if_neg top]
    rfl
  | cons name rest => exact lookup_without tree.entries gone (name :: rest)

theorem node?_without_dir (files : tree.AreFiles gone) :
    (tree.without gone).node? place = some .dir ↔ tree.node? place = some .dir := by
  rw [node?_without files]
  split
  · next mem =>
    obtain ⟨bytes, file⟩ := files place mem
    rw [file]
    simp
  · rfl

theorem WellFormed.without (wf : tree.WellFormed) (files : tree.AreFiles gone) :
    (tree.without gone).WellFormed := by
  constructor
  · exact wf.nodup.sublist (List.filter_sublist.map _)
  · intro e mem
    obtain ⟨nonempty, dir⟩ := wf.parent_dir e (List.mem_of_mem_filter mem)
    exact ⟨nonempty, (node?_without_dir files).mpr dir⟩

theorem sameWays_without (files : tree.AreFiles gone) : SameWays tree (tree.without gone) := by
  refine ⟨rfl, fun place => (node?_without_dir files).symm, fun place target => ?_⟩
  rw [node?_without files]
  split
  · next mem =>
    obtain ⟨bytes, file⟩ := files place mem
    rw [file]
    simp
  · rfl

theorem SameWays.symm {tree' : FileTree} (same : SameWays tree tree') : SameWays tree' tree :=
  ⟨same.home.symm, fun place => (same.dirs place).symm,
    fun place target => (same.links place target).symm⟩

/-- A path leads to what it led to, unless that is gone. -/
theorem find_without (files : tree.AreFiles gone) {node : FileNode} :
    (tree.without gone).find path = .ok (place, node) ↔
      tree.find path = .ok (place, node) ∧ place ∉ gone := by
  have ways : (tree.without gone).resolve path = .ok place ↔ tree.resolve path = .ok place :=
    ⟨(sameWays_without files).symm.resolve, (sameWays_without files).resolve⟩
  rw [find_eq_ok_iff, find_eq_ok_iff, ways, node?_without files]
  split
  · next mem => simp [mem]
  · next kept => simp [kept]

theorem isFile_without (files : tree.AreFiles gone) :
    (tree.without gone).isFile path = true ↔
      ∃ place bytes, tree.find path = .ok (place, .file bytes) ∧ place ∉ gone := by
  simp only [isFile_iff, find_without files]

/-- A directory lists what it listed, as far as it is not gone. -/
theorem childrenOf_without (wf : tree.WellFormed) (files : tree.AreFiles gone) (place : Place) :
    (tree.without gone).childrenOf place =
      (tree.childrenOf place).filter fun child => place ++ [child.1] ∉ gone := by
  apply (wf.without files).eq_childrenOf
  · exact (wf.childrenOf_nodup place).sublist (List.filter_sublist.map _)
  · exact (childrenOf_sorted tree place).filter _
  · intro name node
    rw [List.mem_filter, wf.mem_childrenOf, node?_without files]
    by_cases mem : place ++ [name] ∈ gone
    · simp [mem]
    · simp [mem]

end ModuleSystem.FileTree
