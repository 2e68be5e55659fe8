import Mathlib
import ModuleSystem.FileTree.Filing

namespace ModuleSystem.FileTree

variable {tree : FileTree} {place : Place} {name : String} {node : FileNode}

theorem node?_concat (tree : FileTree) (place : Place) (name : String) :
    tree.node? (place ++ [name]) = tree.entries.lookup (place ++ [name]) := by
  unfold node?
  split
  · next h => simp at h
  · rfl

theorem lookup_eq_some_iff {α β : Type} [BEq α] [LawfulBEq α] {l : List (α × β)}
    (once : (l.map (·.1)).Nodup) {a : α} {b : β} : l.lookup a = some b ↔ (a, b) ∈ l := by
  induction l with
  | nil => simp
  | cons e rest ih =>
    rw [List.map_cons, List.nodup_cons] at once
    rw [List.lookup_cons, List.mem_cons]
    by_cases here : a = e.1
    · subst here
      have absent : (e.1, b) ∉ rest := fun mem =>
        once.1 (List.mem_map.mpr ⟨_, mem, rfl⟩)
      simp only [beq_self_eq_true, Option.some.injEq, absent, or_false]
      constructor
      · rintro rfl
        rfl
      · intro same
        exact congrArg Prod.snd same.symm
    · have other : (a, b) ≠ e := fun same => here (congrArg Prod.fst same)
      simp only [beq_false_of_ne here, other, false_or]
      exact ih once.2

/-- An entry stands in a directory under the last of its names. -/
theorem child_eq_some_iff {e : Place × FileNode} {child : String × FileNode} :
    (match e.1.getLast? with
      | some name => if e.1.dropLast = place then some (name, e.2) else none
      | none => none) = some child ↔ e = (place ++ [child.1], child.2) := by
  constructor
  · intro h
    cases ends : e.1.getLast? with
    | none => simp [ends] at h
    | some last =>
      simp only [ends, Option.ite_none_right_eq_some, Option.some.injEq] at h
      obtain ⟨inside, rfl⟩ := h
      rw [← inside, List.dropLast_append_getLast? last ends]
  · rintro rfl
    simp

theorem mem_childrenOf_entries :
    (name, node) ∈ tree.childrenOf place ↔ (place ++ [name], node) ∈ tree.entries := by
  rw [childrenOf, List.mem_mergeSort, List.mem_filterMap]
  constructor
  · rintro ⟨e, mem, found⟩
    exact child_eq_some_iff.mp found ▸ mem
  · intro mem
    exact ⟨_, mem, child_eq_some_iff.mpr rfl⟩

theorem WellFormed.mem_childrenOf (wf : tree.WellFormed) :
    (name, node) ∈ tree.childrenOf place ↔ tree.node? (place ++ [name]) = some node := by
  rw [mem_childrenOf_entries, node?_concat, lookup_eq_some_iff wf.nodup]

theorem WellFormed.childrenOf_nodup (wf : tree.WellFormed) (place : Place) :
    ((tree.childrenOf place).map (·.1)).Nodup := by
  have entries := List.pairwise_map.mp wf.nodup
  rw [childrenOf, (List.mergeSort_perm _ _).map _ |>.nodup_iff]
  refine List.pairwise_map.mpr ((List.pairwise_filterMap).mpr ?_)
  refine entries.imp fun {e e'} other child found child' found' same => other ?_
  rw [child_eq_some_iff.mp found, child_eq_some_iff.mp found', same]

theorem childrenOf_sorted (tree : FileTree) (place : Place) :
    (tree.childrenOf place).Pairwise fun a b => a.1 ≤ b.1 := by
  have le_iff : ∀ a b : String × FileNode, (!decide (b.1 < a.1)) = true ↔ a.1 ≤ b.1 := by
    intro a b
    rw [Bool.not_eq_true', decide_eq_false_iff_not, String.not_lt]
  refine (List.pairwise_mergeSort ?_ ?_ _).imp fun {a b} => (le_iff a b).mp
  · intro a b c ab bc
    exact (le_iff a c).mpr (String.le_trans ((le_iff a b).mp ab) ((le_iff b c).mp bc))
  · intro a b
    rw [Bool.or_eq_true, le_iff, le_iff]
    exact String.le_total a.1 b.1

/-- A directory lists what stands in it in order of name, and there is one such list. -/
theorem WellFormed.eq_childrenOf (wf : tree.WellFormed) {listed : List (String × FileNode)}
    (once : (listed.map (·.1)).Nodup) (sorted : listed.Pairwise fun a b => a.1 ≤ b.1)
    (mem : ∀ name node, (name, node) ∈ listed ↔ tree.node? (place ++ [name]) = some node) :
    tree.childrenOf place = listed := by
  have perm : (tree.childrenOf place).Perm listed := by
    refine (List.perm_ext_iff_of_nodup ((wf.childrenOf_nodup place).of_map _)
      (once.of_map _)).mpr fun (name, node) => ?_
    rw [wf.mem_childrenOf, mem]
  refine perm.eq_of_pairwise (fun a b here there ab ba => ?_) (childrenOf_sorted tree place) sorted
  exact List.inj_on_of_nodup_map once (perm.subset here) there (String.le_antisymm ab ba)

/-- What a directory lists is told by what stands in it. -/
theorem WellFormed.childrenOf_eq {tree' : FileTree} (wf : tree.WellFormed) (wf' : tree'.WellFormed)
    (same : ∀ name, tree.node? (place ++ [name]) = tree'.node? (place ++ [name])) :
    tree.childrenOf place = tree'.childrenOf place := by
  apply wf.eq_childrenOf (wf'.childrenOf_nodup place) (childrenOf_sorted tree' place)
  intro name node
  rw [wf'.mem_childrenOf, same]

theorem lookup_filter_ne {entries : List (Place × FileNode)} {q : Place} (h : q ≠ place) :
    (entries.filter (·.1 ≠ place)).lookup q = entries.lookup q := by
  induction entries with
  | nil => rfl
  | cons e rest ih =>
    by_cases gone : e.1 = place
    · have other : (q == e.1) = false := beq_false_of_ne fun same => h (same.trans gone)
      rw [List.filter_cons_of_neg (by simpa using gone), ih, List.lookup_cons, other]
    · rw [List.filter_cons_of_pos (by simpa using gone), List.lookup_cons, List.lookup_cons, ih]

theorem node?_put (nonempty : place ≠ []) (q : Place) :
    (tree.put place node).node? q = if q = place then some node else tree.node? q := by
  cases q with
  | nil => simp [node?, Ne.symm nonempty]
  | cons name rest =>
    change List.lookup (name :: rest) ((place, node) :: tree.entries.filter (·.1 ≠ place)) = _
    rw [List.lookup_cons]
    by_cases here : name :: rest = place
    · simp [here]
    · rw [beq_false_of_ne here, if_neg here]
      exact lookup_filter_ne here

/-- What lies in a directory stays in one when a file comes where no directory is. -/
theorem WellFormed.put (wf : tree.WellFormed) (nonempty : place ≠ [])
    (inside : tree.node? place.dropLast = some .dir) (free : tree.node? place ≠ some .dir)
    (bytes : List UInt8) : (tree.put place (.file bytes)).WellFormed := by
  have stays : ∀ q, tree.node? q = some .dir → (tree.put place (.file bytes)).node? q = some .dir := by
    intro q dir
    have other : q ≠ place := fun same => free (same ▸ dir)
    rw [node?_put nonempty, if_neg other]
    exact dir
  constructor
  · change (List.map Prod.fst ((place, FileNode.file bytes) ::
      tree.entries.filter (·.1 ≠ place))).Nodup
    rw [List.map_cons, List.nodup_cons]
    constructor
    · intro mem
      obtain ⟨e, kept, same⟩ := List.mem_map.mp mem
      simpa [same] using List.of_mem_filter kept
    · exact wf.nodup.sublist (List.filter_sublist.map _)
  · intro e mem
    obtain rfl | kept := List.mem_cons.mp mem
    · exact ⟨nonempty, stays _ inside⟩
    · obtain ⟨filled, dir⟩ := wf.parent_dir e (List.mem_of_mem_filter kept)
      exact ⟨filled, stays _ dir⟩

theorem find_eq_ok_iff {path : String} :
    tree.find path = .ok (place, node) ↔
      tree.resolve path = .ok place ∧ tree.node? place = some node := by
  unfold find
  cases tree.resolve path with
  | error e => simp [bind, Except.bind]
  | ok q =>
    simp only [bind, Except.bind, Except.ok.injEq]
    cases found : tree.node? q with
    | none =>
      constructor
      · intro h
        cases h
      · rintro ⟨rfl, here⟩
        rw [found] at here
        cases here
    | some n =>
      constructor
      · intro h
        cases h
        exact ⟨rfl, found⟩
      · rintro ⟨rfl, here⟩
        rw [found] at here
        cases here
        rfl

theorem isDir_iff {path : String} :
    tree.isDir path = true ↔ ∃ place, tree.find path = .ok (place, .dir) := by
  unfold isDir
  split
  · next place found => simp [found]
  · next other =>
    constructor
    · intro h
      cases h
    · rintro ⟨place, found⟩
      exact absurd found (other place)

theorem isFile_iff {path : String} :
    tree.isFile path = true ↔ ∃ place bytes, tree.find path = .ok (place, .file bytes) := by
  unfold isFile
  split
  · next place bytes found => simp [found]
  · next other =>
    constructor
    · intro h
      cases h
    · rintro ⟨place, bytes, found⟩
      exact absurd found (other place bytes)

theorem contains_of_find {path : String} {found : Place × FileNode} (h : tree.find path = .ok found) :
    tree.contains path = true := by
  rw [contains, h]
  rfl

theorem list_of_find {path : String} (h : tree.find path = .ok (place, .dir)) :
    tree.list path = .ok (tree.childrenOf place) := by
  rw [list, h]
  rfl

theorem read_of_find {path : String} {bytes : List UInt8}
    (h : tree.find path = .ok (place, .file bytes)) : tree.read path = .ok bytes := by
  rw [read, h]
  rfl

end ModuleSystem.FileTree

namespace ModuleSystem.Filing

variable {ε α β : Type}

theorem run_edit (fault : IoError → ε) (change : FileTree → Except IoError FileTree)
    (tree : FileTree) : (edit fault change).run tree =
      match change tree with
      | .ok changed => (.ok (), changed)
      | .error e => (.error (fault e), tree) := by
  have read : (edit fault change).run tree =
      (match change tree with
        | .ok changed => set changed
        | .error e => throw (fault e) : Filing ε Unit).run tree := rfl
  rw [read]
  cases change tree <;> rfl

/-- After what succeeds, the computation goes on with the tree that it left. -/
theorem run_bind_ok {x : Filing ε α} {f : α → Filing ε β} {tree tree' : FileTree} {a : α}
    (h : x.run tree = (.ok a, tree')) : (x >>= f).run tree = (f a).run tree' := by
  have step : (x >>= f).run tree = match x.run tree with
    | (.ok a, tree) => (f a).run tree
    | (.error e, tree) => (.error e, tree) := by
    change (match x.run tree with | (r, tree) => (ExceptT.bindCont f r) tree) = _
    rcases x.run tree with ⟨_ | _, _⟩ <;> rfl
  rw [step, h]

end ModuleSystem.Filing
