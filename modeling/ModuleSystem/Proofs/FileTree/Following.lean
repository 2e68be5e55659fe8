import ModuleSystem.Proofs.FileTree.Paths
import ModuleSystem.Proofs.FileTree.Places

/-! Where a path leads, told by the single steps of the way instead of by nested calls. -/

namespace ModuleSystem.FileTree

variable {tree : FileTree}

/-- A name that leads to an entry of a directory, and is not too long for one. -/
structure Enters (name : String) : Prop where
  not_here : name ≠ "."
  not_up : name ≠ ".."
  short : name.utf8ByteSize ≤ 255

/-- The way from a place along names, through at most so many links. Every name starts from a
directory, and only the last one may be missing. -/
inductive Goes (tree : FileTree) : Nat → Place → List String → Place → Prop
  | arrive {links : Nat} {here : Place} : Goes tree links here [] here
  | stay {links : Nat} {here there : Place} {rest : List String}
      (dir : tree.node? here = some .dir) (onward : Goes tree links here rest there) :
      Goes tree links here ("." :: rest) there
  | up {links : Nat} {here there : Place} {rest : List String}
      (dir : tree.node? here = some .dir) (onward : Goes tree links here.dropLast rest there) :
      Goes tree links here (".." :: rest) there
  | link {links : Nat} {here there : Place} {name target : String} {rest : List String}
      (dir : tree.node? here = some .dir) (enters : Enters name)
      (found : tree.node? (here ++ [name]) = some (.link target))
      (onward : Goes tree links (if Path.isAbsolute target then [] else here)
        (Path.components target ++ rest) there) : Goes tree (links + 1) here (name :: rest) there
  | down {links : Nat} {here there : Place} {name : String} {rest : List String}
      (dir : tree.node? here = some .dir) (enters : Enters name)
      (no_link : ∀ target, tree.node? (here ++ [name]) ≠ some (.link target))
      (present : rest = [] ∨ tree.node? (here ++ [name]) ≠ none)
      (onward : Goes tree links (here ++ [name]) rest there) :
      Goes tree links here (name :: rest) there

/-- What is behind a link, as long as links may be followed. -/
def behind (tree : FileTree) : Nat → Place → List String → Except IoError Place
  | 0 => fun _ _ => .error .tooManyLinks
  | links + 1 => follow tree links

theorem follow_eq_descend (links : Nat) (here : Place) (names : List String) :
    follow tree links here names = descend tree (tree.behind links) here names := by
  cases links <;> rfl

theorem descend_cons (jump : Place → List String → Except IoError Place) (here : Place)
    (name : String) (rest : List String) :
    descend tree jump here (name :: rest) =
      if tree.node? here ≠ some .dir then .error .notDirectory
      else if name = "." then descend tree jump here rest
      else if name = ".." then descend tree jump here.dropLast rest
      else if 255 < name.utf8ByteSize then .error .nameTooLong
      else match tree.node? (here ++ [name]), rest with
        | some (.link target), _ =>
          jump (if Path.isAbsolute target then [] else here) (Path.components target ++ rest)
        | none, _ :: _ => .error .notFound
        | _, _ => descend tree jump (here ++ [name]) rest := rfl

theorem Goes.follow {links : Nat} {here there : Place} {names : List String}
    (h : Goes tree links here names there) : follow tree links here names = .ok there := by
  induction h with
  | arrive => rw [follow_eq_descend, descend]
  | stay dir _ ih =>
    rw [follow_eq_descend] at ih ⊢
    rw [descend_cons, if_neg (by simp [dir]), if_pos rfl, ih]
  | up dir _ ih =>
    rw [follow_eq_descend] at ih ⊢
    rw [descend_cons, if_neg (by simp [dir]), if_neg (by decide), if_pos rfl, ih]
  | link dir enters found _ ih =>
    rw [follow_eq_descend, descend_cons, if_neg (by simp [dir]), if_neg enters.not_here,
      if_neg enters.not_up, if_neg (Nat.not_lt.mpr enters.short), found]
    exact ih
  | @down links here there name rest dir enters no_link present _ ih =>
    rw [follow_eq_descend] at ih ⊢
    rw [descend_cons, if_neg (by simp [dir]), if_neg enters.not_here, if_neg enters.not_up,
      if_neg (Nat.not_lt.mpr enters.short)]
    cases found : tree.node? (here ++ [name]) with
    | none =>
      obtain rfl | there_is := present
      · exact ih
      · exact absurd found there_is
    | some node =>
      cases node with
      | link target => exact absurd found (no_link target)
      | file | dir => exact ih

theorem goes_of_descend {links : Nat} {here there : Place} {names : List String}
    (jumps : ∀ here names there, tree.behind links here names = .ok there →
      ∃ fewer, links = fewer + 1 ∧ Goes tree fewer here names there)
    (h : descend tree (tree.behind links) here names = .ok there) :
    Goes tree links here names there := by
  induction names generalizing here with
  | nil =>
    cases h
    exact .arrive
  | cons name rest ih =>
    rw [descend_cons] at h
    split at h
    · cases h
    next dir =>
    have dir : tree.node? here = some .dir := by simpa using dir
    split at h
    · next same =>
      subst same
      exact .stay dir (ih h)
    next not_here =>
    split at h
    · next same =>
      subst same
      exact .up dir (ih h)
    next not_up =>
    split at h
    · cases h
    next short =>
    have enters : Enters name := ⟨not_here, not_up, Nat.not_lt.mp short⟩
    cases found : tree.node? (here ++ [name]) with
    | none =>
      have no_link : ∀ target, tree.node? (here ++ [name]) ≠ some (.link target) := by simp [found]
      rw [found] at h
      cases rest with
      | nil => exact .down dir enters no_link (.inl rfl) (ih h)
      | cons next rest => cases h
    | some node =>
      have present : tree.node? (here ++ [name]) ≠ none := by simp [found]
      rw [found] at h
      cases node with
      | link target =>
        obtain ⟨fewer, rfl, onward⟩ := jumps _ _ _ h
        exact .link dir enters found onward
      | file bytes => exact .down dir enters (by simp [found]) (.inr present) (ih h)
      | dir => exact .down dir enters (by simp [found]) (.inr present) (ih h)

theorem goes_of_follow {links : Nat} {here there : Place} {names : List String}
    (h : follow tree links here names = .ok there) : Goes tree links here names there := by
  induction links generalizing here names there with
  | zero =>
    refine goes_of_descend (fun here names there jumped => ?_) h
    cases jumped
  | succ links ih => exact goes_of_descend (fun _ _ _ jumped => ⟨links, rfl, ih jumped⟩) h

theorem follow_eq_ok_iff {links : Nat} {here there : Place} {names : List String} :
    follow tree links here names = .ok there ↔ Goes tree links here names there :=
  ⟨goes_of_follow, Goes.follow⟩

namespace Goes

variable {links : Nat} {here there : Place} {names : List String}

/-- From a directory, the way goes on to an entry. -/
theorem concat (h : Goes tree links here names there) {name : String}
    (dir : tree.node? there = some .dir) (enters : Enters name)
    (no_link : ∀ target, tree.node? (there ++ [name]) ≠ some (.link target)) :
    Goes tree links here (names ++ [name]) (there ++ [name]) := by
  induction h with
  | arrive => exact .down dir enters no_link (.inl rfl) .arrive
  | stay dir' _ ih => exact .stay dir' (ih dir no_link)
  | up dir' _ ih => exact .up dir' (ih dir no_link)
  | link dir' enters' found _ ih =>
    have onward := ih dir no_link
    rw [List.append_assoc] at onward
    exact .link dir' enters' found onward
  | @down _ here there name' rest dir' enters' no_link' present onward ih =>
    refine .down dir' enters' no_link' (.inr fun missing => ?_) (ih dir no_link)
    -- A place where nothing is cannot be the directory that the way leads to.
    obtain rfl | there_is := present
    · cases onward
      rw [missing] at dir
      cases dir
    · exact there_is missing

/-- The way to the last name leads through a directory. -/
theorem before_last {name : String} (h : Goes tree links here (names ++ [name]) there) :
    ∃ parent, Goes tree links here names parent ∧ tree.node? parent = some .dir := by
  generalize whole : names ++ [name] = all at h
  induction h generalizing names with
  | arrive => simp at whole
  | @stay _ here _ rest dir _ ih =>
    cases names with
    | nil => exact ⟨here, .arrive, dir⟩
    | cons first more =>
      obtain ⟨rfl, same⟩ := List.cons.inj whole
      obtain ⟨parent, goes, is_dir⟩ := ih same
      exact ⟨parent, .stay dir goes, is_dir⟩
  | @up _ here _ rest dir _ ih =>
    cases names with
    | nil => exact ⟨here, .arrive, dir⟩
    | cons first more =>
      obtain ⟨rfl, same⟩ := List.cons.inj whole
      obtain ⟨parent, goes, is_dir⟩ := ih same
      exact ⟨parent, .up dir goes, is_dir⟩
  | @link _ here _ _ target rest dir enters found _ ih =>
    cases names with
    | nil => exact ⟨here, .arrive, dir⟩
    | cons first more =>
      obtain ⟨rfl, same⟩ := List.cons.inj whole
      obtain ⟨parent, goes, is_dir⟩ := @ih (Path.components target ++ more)
        ((List.append_assoc _ _ _).trans (congrArg _ same))
      exact ⟨parent, .link dir enters found goes, is_dir⟩
  | @down _ here _ _ rest dir enters no_link present _ ih =>
    cases names with
    | nil => exact ⟨here, .arrive, dir⟩
    | cons first more =>
      obtain ⟨rfl, same⟩ := List.cons.inj whole
      obtain ⟨parent, goes, is_dir⟩ := ih same
      have present : tree.node? (here ++ [first]) ≠ none := by
        obtain rfl | present := present
        · simp at same
        · exact present
      exact ⟨parent, .down dir enters no_link (.inr present) goes, is_dir⟩

/-- Names without some of the dots that stay where they are. -/
inductive Undotted : List String → List String → Prop
  | done : Undotted [] []
  | keep (name : String) {names fewer : List String} (rest : Undotted names fewer) :
      Undotted (name :: names) (name :: fewer)
  | drop {names fewer : List String} (rest : Undotted names fewer) : Undotted ("." :: names) fewer

theorem Undotted.append_left (first : List String) {names fewer : List String}
    (h : Undotted names fewer) : Undotted (first ++ names) (first ++ fewer) := by
  induction first with
  | nil => exact h
  | cons name rest ih => exact .keep name ih

theorem Undotted.filter (names : List String) : Undotted names (names.filter (· ≠ ".")) := by
  induction names with
  | nil => exact .done
  | cons name rest ih =>
    by_cases dot : name = "."
    · subst dot
      exact .drop ih
    · rw [List.filter_cons_of_pos (by simpa using dot)]
      exact .keep name ih

theorem undotted (h : Goes tree links here names there) {fewer : List String}
    (less : Undotted names fewer) : Goes tree links here fewer there := by
  induction h generalizing fewer with
  | arrive =>
    cases less
    exact .arrive
  | stay dir _ ih =>
    cases less with
    | keep _ rest => exact .stay dir (ih rest)
    | drop rest => exact ih rest
  | up dir _ ih =>
    generalize same : ".." = name at less
    cases less with
    | keep _ rest => exact same ▸ .up dir (ih rest)
    | drop => exact absurd same (by decide)
  | link dir enters found _ ih =>
    cases less with
    | keep _ rest => exact .link dir enters found (ih (rest.append_left _))
    | drop => exact absurd rfl enters.not_here
  | down dir enters no_link present _ ih =>
    cases less with
    | keep _ rest =>
      refine .down dir enters no_link ?_ (ih rest)
      obtain rfl | present := present
      · cases rest
        exact .inl rfl
      · exact .inr present
    | drop => exact absurd rfl enters.not_here

end Goes

/-- Two trees have their directories and links in common. They may hold other files. -/
structure SameWays (tree tree' : FileTree) : Prop where
  home : tree.home = tree'.home
  dirs : ∀ place, tree.node? place = some .dir ↔ tree'.node? place = some .dir
  links : ∀ place target,
    tree.node? place = some (.link target) ↔ tree'.node? place = some (.link target)

variable {tree' : FileTree}

theorem Goes.same_ways {links : Nat} {here there : Place} {names : List String}
    (h : Goes tree links here names there) (same : SameWays tree tree') :
    Goes tree' links here names there := by
  induction h with
  | arrive => exact .arrive
  | stay dir _ ih => exact .stay ((same.dirs _).mp dir) ih
  | up dir _ ih => exact .up ((same.dirs _).mp dir) ih
  | link dir enters found _ ih =>
    exact .link ((same.dirs _).mp dir) enters ((same.links _ _).mp found) ih
  | @down _ here _ name rest dir enters no_link present onward ih =>
    refine .down ((same.dirs _).mp dir) enters
      (fun target found => no_link target ((same.links _ _).mpr found)) ?_ ih
    -- Only a directory can have more names behind it, and directories are the same.
    cases onward with
    | arrive => exact .inl rfl
    | stay inner | up inner | link inner | down inner =>
      refine .inr ?_
      rw [(same.dirs _).mp inner]
      exact Option.some_ne_none _

theorem SameWays.resolve (same : SameWays tree tree') {path : String} {place : Place}
    (h : tree.resolve path = .ok place) : tree'.resolve path = .ok place := by
  unfold FileTree.resolve at h ⊢
  split at h
  · cases h
  split at h
  · cases h
  rw [if_neg ‹_›, if_neg ‹_›]
  have start : tree'.start path = tree.start path := by rw [start, start, same.home]
  rw [start]
  exact ((goes_of_follow h).same_ways same).follow

/-- A file may come or change where no directory and no link stands. -/
theorem sameWays_put {place : Place} (nonempty : place ≠ []) (no_dir : tree.node? place ≠ some .dir)
    (no_link : ∀ target, tree.node? place ≠ some (.link target)) (bytes : List UInt8) :
    SameWays tree (tree.put place (.file bytes)) := by
  have other : ∀ q node, tree.node? q = some node → (q = place → False) →
      (tree.put place (.file bytes)).node? q = some node := by
    intro q node found away
    rw [node?_put nonempty, if_neg away]
    exact found
  have back : ∀ q node, (∀ bytes, node ≠ .file bytes) →
      (tree.put place (.file bytes)).node? q = some node → tree.node? q = some node := by
    intro q node not_file found
    rw [node?_put nonempty] at found
    split at found
    · cases found
      exact absurd rfl (not_file bytes)
    · exact found
  refine ⟨rfl, fun q => ⟨fun dir => other q _ dir fun same => no_dir (same ▸ dir), back q _ ?_⟩,
    fun q target => ⟨fun link => other q _ link fun same => no_link target (same ▸ link),
      back q _ ?_⟩⟩
  · intro bytes h
    cases h
  · intro bytes h
    cases h

/-- A name that an entry can have, in a path and on disk. -/
structure EntryName (name : String) : Prop extends Path.Plain name where
  short : name.utf8ByteSize ≤ 255
  no_nul : '\x00' ∉ name.toList

theorem EntryName.enters {name : String} (h : EntryName name) : Enters name :=
  ⟨h.not_here, h.not_up, h.short⟩

section Entries

variable {dir name : String} {place : Place}

theorem resolve_eq_ok_iff {path : String} :
    tree.resolve path = .ok place ↔ '\x00' ∉ path.toList ∧ path ≠ "" ∧
      Goes tree linkLimit (tree.start path) (Path.components path) place := by
  unfold resolve
  split
  · next nul => simp_all
  split
  · next empty => simp_all
  · next text nonempty =>
    rw [follow_eq_ok_iff]
    simp_all

theorem Goes.to_bare {links : Nat} {here : Place} {path : String}
    (h : Goes tree links here (Path.components path) place) :
    Goes tree links here (Path.bare path) place := by
  rw [Path.components_eq] at h
  split at h
  · refine h.undotted ?_
    have dot := Undotted.append_left (Path.bare path) (.drop .done)
    rwa [List.append_nil] at dot
  · rwa [List.append_nil] at h

theorem start_join (entry : Path.Plain name) (nonempty : dir ≠ "") :
    tree.start (Path.join dir name) = tree.start dir := by
  rw [start, start, Path.isAbsolute_join entry.not_absolute nonempty]

theorem no_nul_join (entry : EntryName name) (text : '\x00' ∉ dir.toList) :
    '\x00' ∉ (Path.join dir name).toList := by
  intro mem
  obtain in_dir | slash | in_name := Path.mem_join mem
  · exact text in_dir
  · cases slash
  · exact entry.no_nul in_name

theorem join_ne_empty (entry : Path.Plain name) (nonempty : dir ≠ "") : Path.join dir name ≠ "" := by
  intro empty
  have names := Path.components_join entry nonempty
  rw [empty, show Path.components "" = [] by decide] at names
  simp at names

/-- Where an entry of a directory stands, if no link stands there. -/
theorem resolve_join (h : tree.find dir = .ok (place, .dir)) (entry : EntryName name)
    (no_link : ∀ target, tree.node? (place ++ [name]) ≠ some (.link target)) :
    tree.resolve (Path.join dir name) = .ok (place ++ [name]) := by
  obtain ⟨resolved, is_dir⟩ := find_eq_ok_iff.mp h
  obtain ⟨text, nonempty, goes⟩ := resolve_eq_ok_iff.mp resolved
  refine resolve_eq_ok_iff.mpr ⟨no_nul_join entry text, join_ne_empty entry.toPlain nonempty, ?_⟩
  rw [start_join entry.toPlain nonempty, Path.components_join entry.toPlain nonempty]
  exact goes.to_bare.concat is_dir entry.enters no_link

theorem lastPlace_join (h : tree.find dir = .ok (place, .dir)) (entry : EntryName name) :
    tree.lastPlace (Path.join dir name) = .ok (place ++ [name]) := by
  obtain ⟨resolved, is_dir⟩ := find_eq_ok_iff.mp h
  obtain ⟨text, nonempty, goes⟩ := resolve_eq_ok_iff.mp resolved
  have plain : ¬(name = "." || name = ".." ||
      (Path.join dir name).toList.contains '\x00') = true := by
    simp [entry.not_here, entry.not_up, no_nul_join entry text]
  have parent := goes.to_bare.follow
  rw [← start_join entry.toPlain nonempty] at parent
  simp only [lastPlace, Path.components_join entry.toPlain nonempty, List.getLast?_concat,
    if_neg plain, List.dropLast_concat, parent, bind, Except.bind, is_dir, ne_eq, not_true_eq_false,
    if_false, if_neg (Nat.not_lt.mpr entry.short)]
  rfl

/-- A file is put into a directory under the name that it is to have. -/
theorem replace_join (h : tree.find dir = .ok (place, .dir)) (entry : EntryName name)
    (no_dir : tree.node? (place ++ [name]) ≠ some .dir) (bytes : List UInt8) :
    tree.replace (Path.join dir name) bytes = .ok (tree.put (place ++ [name]) (.file bytes)) := by
  simp only [replace, lastPlace_join h entry, bind, Except.bind]
  rfl

end Entries

theorem makeDir_of_dir {start place : Place} {names : List String} {name : String}
    (goes : Goes tree linkLimit start (names ++ [name]) place)
    (is_dir : tree.node? place = some .dir) :
    ∃ e, tree.makeDir start (names ++ [name]) = .error e ∧ e ≠ .notFound := by
  obtain ⟨parent, before, parent_dir⟩ := goes.before_last
  simp only [makeDir, List.dropLast_concat, before.follow, bind, Except.bind, parent_dir,
    List.getLast?_concat]
  split
  · exact ⟨.exists, rfl, by decide⟩
  next free =>
  split
  · exact ⟨.nameTooLong, rfl, by decide⟩
  next short =>
  -- If the name were free, the way would lead to where nothing is.
  exfalso
  simp only [Bool.or_eq_true, decide_eq_true_eq, not_or, Option.not_isSome_iff_eq_none] at free
  obtain ⟨⟨not_here, not_up⟩, missing⟩ := free
  have again := before.concat parent_dir ⟨not_here, not_up, Nat.not_lt.mp short⟩
    (by rw [missing]; exact fun _ => Option.some_ne_none _ |>.symm)
  have same : place = parent ++ [name] := by
    have both := goes.follow.symm.trans again.follow
    cases both
    rfl
  rw [same, missing] at is_dir
  cases is_dir

/-- Nothing is made where a directory is. -/
theorem makeDirs_of_dir {dir : String} {place : Place} (h : tree.find dir = .ok (place, .dir)) :
    tree.makeDirs dir = .ok tree := by
  obtain ⟨resolved, is_dir⟩ := find_eq_ok_iff.mp h
  obtain ⟨text, _, goes⟩ := resolve_eq_ok_iff.mp resolved
  have goes := goes.undotted (Goes.Undotted.filter _)
  have no_nul : ¬dir.toList.contains '\x00' = true := by simpa using text
  rw [makeDirs, if_neg no_nul]
  generalize (Path.components dir).filter (· ≠ ".") = names at goes
  induction names using List.reverseRecOn with
  | nil => rfl
  | append_singleton names name _ =>
    obtain ⟨e, refused, other⟩ := makeDir_of_dir goes is_dir
    have there : tree.isDirAt (tree.start dir) (names ++ [name]) = true := by
      rw [isDirAt, goes.follow]
      simp [is_dir]
    rw [List.reverse_append, List.reverse_singleton, List.singleton_append, makeDirsFrom]
    simp only [List.reverse_cons, List.reverse_reverse, refused, there, if_true]

end ModuleSystem.FileTree
