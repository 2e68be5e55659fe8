import ModuleSystem.Proofs.Trie.WellFormed

/-! A lookup finds the one entry of an equal key. `Inserts` and `Deletes` say what an update does to
the entries of a node and which outcome it reports; `insert_spec` and `remove_spec` show that
updates of well-formed nodes do that and give well-formed nodes. -/

namespace ModuleSystem.Trie

variable {κ ν : Type}

namespace Inserted

variable {α β γ : Type}

@[simp] theorem map_map (f : α → β) (g : β → γ) (r : Inserted α) :
    (r.map f).map g = r.map (g ∘ f) := by
  cases r <;> rfl

def result? : Inserted α → Option α
  | .unchanged => none
  | .replaced a | .added a => some a

@[simp] theorem result?_map (f : α → β) (r : Inserted α) :
    (r.map f).result? = r.result?.map f := by
  cases r <;> rfl

end Inserted

section
variable [BEq κ]

/-- The value stored under a key, in a list of entries. -/
def valueOf (key : κ) (entries : List (κ × ν)) : Option ν :=
  (entries.find? (·.1 == key)).map (·.2)

/-- Entries of other keys on either side do not matter. -/
theorem find?_between {key : κ} {a b : List (κ × ν)} (ha : Absent key a) (hb : Absent key b)
    (l : List (κ × ν)) : (a ++ l ++ b).find? (·.1 == key) = l.find? (·.1 == key) := by
  rw [List.find?_append, List.find?_append, find?_eq_none_iff_absent.mpr ha,
    find?_eq_none_iff_absent.mpr hb, Option.none_or, Option.or_none]

/-- What a removal does to entries: nothing if the key is not there, else it takes out its pair. -/
inductive Deletes (key : κ) (old : List (κ × ν)) : Option (List (κ × ν)) → Prop where
  | absent (h : Absent key old) : Deletes key old none
  | present {l r : List (κ × ν)} {stored : κ × ν} (h : old = l ++ stored :: r)
      (same : (stored.1 == key) = true) : Deletes key old (some (l ++ r))

theorem Deletes.between {key : κ} {a old b : List (κ × ν)} {r : Option (List (κ × ν))}
    (h : Deletes key old r) (ha : Absent key a) (hb : Absent key b) :
    Deletes key (a ++ old ++ b) (r.map fun l => a ++ l ++ b) := by
  cases h with
  | absent h => exact .absent (absent_append.mpr ⟨absent_append.mpr ⟨ha, h⟩, hb⟩)
  | @present l r stored h same =>
    have taken : Deletes key (a ++ old ++ b) (some ((a ++ l) ++ (r ++ b))) :=
      .present (by simp [h]) same
    simpa using taken

theorem Deletes.split {key : κ} {old new : List (κ × ν)} (h : Deletes key old (some new)) :
    ∃ l stored r, old = l ++ stored :: r ∧ (stored.1 == key) = true ∧ new = l ++ r := by
  cases h with
  | present split same => exact ⟨_, _, _, split, same, rfl⟩

variable [BEq ν]

/-- What an insertion does to entries, with the outcome that it reports. -/
inductive Inserts (key : κ) (value : ν) (old : List (κ × ν)) : Inserted (List (κ × ν)) → Prop where
  | unchanged {l r : List (κ × ν)} {stored : κ × ν} (h : old = l ++ stored :: r)
      (same : (stored.1 == key) = true) (equal : (stored.2 == value) = true) :
      Inserts key value old .unchanged
  | replaced {l r : List (κ × ν)} {stored : κ × ν} (h : old = l ++ stored :: r)
      (same : (stored.1 == key) = true) (other : (stored.2 == value) = false) :
      Inserts key value old (.replaced (l ++ (key, value) :: r))
  | added {new : List (κ × ν)} (h : Absent key old) (more : new.Perm ((key, value) :: old)) :
      Inserts key value old (.added new)

theorem Inserts.between {key : κ} {value : ν} {a old b : List (κ × ν)}
    {r : Inserted (List (κ × ν))} (h : Inserts key value old r) (ha : Absent key a)
    (hb : Absent key b) :
    Inserts key value (a ++ old ++ b) (r.map fun l => a ++ l ++ b) := by
  cases h with
  | @unchanged l r stored h same equal =>
    exact .unchanged (l := a ++ l) (r := r ++ b) (by simp [h]) same equal
  | @replaced l r stored h same other =>
    have put : Inserts key value (a ++ old ++ b)
        (.replaced ((a ++ l) ++ (key, value) :: (r ++ b))) :=
      .replaced (by simp [h]) same other
    simpa [Inserted.map] using put
  | added h more =>
    refine .added (absent_append.mpr ⟨absent_append.mpr ⟨ha, h⟩, hb⟩) ?_
    have := (more.append_left a).append_right b
    exact this.trans (List.perm_middle.append_right b)

theorem Inserts.replaced_split {key : κ} {value : ν} {old new : List (κ × ν)}
    (h : Inserts key value old (.replaced new)) :
    ∃ l stored r, old = l ++ stored :: r ∧ (stored.1 == key) = true ∧
      (stored.2 == value) = false ∧ new = l ++ (key, value) :: r := by
  cases h with
  | replaced split same other => exact ⟨_, _, _, split, same, other, rfl⟩

theorem Inserts.added_split {key : κ} {value : ν} {old new : List (κ × ν)}
    (h : Inserts key value old (.added new)) :
    Absent key old ∧ new.Perm ((key, value) :: old) := by
  cases h with
  | added nowhere more => exact ⟨nowhere, more⟩

theorem Inserts.length_le {key : κ} {value : ν} {old new : List (κ × ν)}
    {r : Inserted (List (κ × ν))} (h : Inserts key value old r) (hr : r.result? = some new) :
    old.length ≤ new.length := by
  cases h with
  | unchanged => cases hr
  | replaced h =>
    cases hr
    simp [h]
  | added _ more =>
    cases hr
    simp [more.length_eq]

theorem Inserts.mem_result {key : κ} {value : ν} {old new : List (κ × ν)}
    {r : Inserted (List (κ × ν))} (h : Inserts key value old r) (hr : r.result? = some new)
    {e : κ × ν} (he : e ∈ new) : e ∈ old ∨ e = (key, value) := by
  cases h with
  | unchanged => cases hr
  | replaced h =>
    cases hr
    simp only [List.mem_append, List.mem_cons] at he
    simp only [h, List.mem_append, List.mem_cons]
    tauto
  | added _ more =>
    cases hr
    rw [more.mem_iff, List.mem_cons] at he
    exact he.symm

omit [BEq ν] in
theorem DistinctKeys.perm [EquivBEq κ] {a b : List (κ × ν)} (h : DistinctKeys a) (p : b.Perm a) :
    DistinctKeys b :=
  (p.pairwise_iff fun {x y} hxy => by rwa [BEq.comm] at hxy).mpr h

theorem Inserts.distinct [EquivBEq κ] {key : κ} {value : ν} {old new : List (κ × ν)}
    {r : Inserted (List (κ × ν))} (h : Inserts key value old r) (hd : DistinctKeys old)
    (hr : r.result? = some new) : DistinctKeys new := by
  cases h with
  | unchanged => cases hr
  | @replaced l r stored h same =>
    cases hr
    rw [h, DistinctKeys, List.pairwise_append, List.pairwise_cons] at hd
    obtain ⟨hl, ⟨hs, hr⟩, across⟩ := hd
    rw [DistinctKeys, List.pairwise_append, List.pairwise_cons]
    refine ⟨hl, ⟨fun e he => ?_, hr⟩, fun a ha e he => ?_⟩
    · rw [← BEq.congr_left same]
      exact hs e he
    · rcases List.mem_cons.mp he with rfl | he
      · rw [← BEq.congr_right same]
        exact across a ha stored List.mem_cons_self
      · exact across a ha e (List.mem_cons_of_mem _ he)
  | added absent more =>
    cases hr
    refine DistinctKeys.perm ?_ more
    refine List.pairwise_cons.mpr ⟨fun e he => ?_, hd⟩
    rw [BEq.comm]
    exact absent e he

theorem insertEntry_spec (key : κ) (value : ν) (entries : List (κ × ν)) :
    Inserts key value entries (Node.insertEntry key value entries) := by
  induction entries with
  | nil => exact .added (absent_nil key) (.refl _)
  | cons e rest ih =>
    obtain ⟨k, v⟩ := e
    rw [Node.insertEntry]
    split
    · rename_i same
      split
      · rename_i equal
        exact .unchanged (l := []) rfl same equal
      · rename_i other
        exact .replaced (l := []) rfl same (by simpa using other)
    · rename_i differ
      have := ih.between (a := [(k, v)]) (b := []) (by simpa [Absent] using differ) (absent_nil key)
      simpa using this

end

section
variable [BEq κ]

theorem getNth?_at (depth : Nat) (hash : UInt64) (key : κ) (before after : List (Node κ ν))
    (child : Node κ ν) :
    Node.getNth? depth hash key before.length (before ++ child :: after) =
      child.get? depth hash key := by
  induction before with
  | nil => rw [List.length_nil, List.nil_append, Node.getNth?]
  | cons first before ih => rw [List.length_cons, List.cons_append, Node.getNth?, ih]

theorem removeNth_at (depth : Nat) (hash : UInt64) (key : κ) (before after : List (Node κ ν))
    (child : Node κ ν) :
    Node.removeNth depth hash key before.length (before ++ child :: after) =
      (child.remove depth hash key).map fun new =>
        if new.isEmpty then before ++ after else before ++ new :: after := by
  induction before with
  | nil => rw [List.length_nil, List.nil_append, Node.removeNth]; rfl
  | cons first before ih =>
    rw [List.length_cons, List.cons_append, Node.removeNth, ih, Option.map_map]
    congr 1
    funext new
    cases h : new.isEmpty <;> simp [h]

theorem insertNth_at [BEq ν] (depth : Nat) (hash : UInt64) (key : κ) (value : ν)
    (before after : List (Node κ ν)) (child : Node κ ν) :
    Node.insertNth depth hash key value before.length (before ++ child :: after) =
      (child.insert depth hash key value).map fun new => before ++ new :: after := by
  induction before with
  | nil => rw [List.length_nil, List.nil_append, Node.insertNth]; rfl
  | cons first before ih =>
    rw [List.length_cons, List.cons_append, Node.insertNth, ih, Inserted.map_map]
    rfl

end

variable [BEq κ] [Hashable κ]

/-- Where the hashes of two nodes part, one branch holds both, below branches of a single child. -/
theorem joinAt_spec {a b : Node κ ν} {aHash bHash : UInt64} (differ : aHash ≠ bHash)
    (ha : ∀ path, Follows path aHash → WellFormed path a)
    (hb : ∀ path, Follows path bHash → WellFormed path b) {more depth : Nat} {path : List Nat}
    (len : path.length = depth) (bound : more + depth = levels) (fa : Follows path aHash)
    (fb : Follows path bHash) :
    let n := Node.joinAt more depth a aHash b bHash
    WellFormed path n ∧ n.isCollapsible = false ∧ n.toList.Perm (a.toList ++ b.toList) := by
  induction more generalizing depth path with
  | zero => exact absurd (fa.eq fb (by omega)) differ
  | succ more ih =>
    have room : path.length < levels := by omega
    have hsA := slot_lt aHash depth
    have hsB := slot_lt bHash depth
    dsimp only [Node.joinAt]
    split
    · rename_i same
      have longer : (path ++ [slot aHash depth]).length = depth + 1 := by simp [len]
      obtain ⟨below, isBranch, entries⟩ := ih longer (by omega)
        (follows_snoc.mpr ⟨fa, by rw [len]⟩) (follows_snoc.mpr ⟨fb, by rw [len, same]⟩)
      refine ⟨.branch room ?_ ?_ isBranch, rfl, ?_⟩
      · rw [occupied_slotBit hsA]
        rfl
      · rw [occupied_slotBit hsA]
        simpa using below
      · rw [toList_branch]
        simpa using entries
    · rename_i apart
      have atA := ha _ (follows_snoc.mpr ⟨fa, rfl⟩)
      have atB := hb _ (follows_snoc.mpr ⟨fb, rfl⟩)
      rw [len] at atA atB
      by_cases order : slot aHash depth < slot bHash depth
      · rw [if_pos order]
        refine ⟨.branch room ?_ ?_ trivial, rfl, ?_⟩
        · rw [occupied_pair order hsB]
          rfl
        · rw [occupied_pair order hsB]
          simpa using ⟨atA, atB⟩
        · rw [toList_branch]
          simp
      · rw [if_neg order, BitVec.or_comm]
        have order' : slot bHash depth < slot aHash depth := by omega
        refine ⟨.branch room ?_ ?_ trivial, rfl, ?_⟩
        · rw [occupied_pair order' hsA]
          rfl
        · rw [occupied_pair order' hsA]
          simpa using ⟨atB, atA⟩
        · rw [toList_branch]
          simpa using List.perm_append_comm

theorem join_spec {a b : Node κ ν} {aHash bHash : UInt64} (differ : aHash ≠ bHash)
    (ha : ∀ path, Follows path aHash → WellFormed path a)
    (hb : ∀ path, Follows path bHash → WellFormed path b) {path : List Nat}
    (fa : Follows path aHash) (fb : Follows path bHash) :
    let n := Node.join path.length a aHash b bHash
    WellFormed path n ∧ n.isCollapsible = false ∧ n.toList.Perm (a.toList ++ b.toList) := by
  have room : path.length < levels := by
    by_contra full
    exact differ (fa.eq fb (by omega))
  exact joinAt_spec differ ha hb rfl (by omega) fa fb

variable [LawfulHashable κ]

/-- A node whose entries all have another hash than `key` does not hold it. -/
theorem absent_of_hash_ne {entries : List (κ × ν)} {h : UInt64} {key : κ}
    (keyHash : ∀ e ∈ entries, hash e.1 = h) (differ : h ≠ hash key) : Absent key entries := by
  intro e he
  cases same : e.1 == key with
  | false => rfl
  | true => exact absurd ((keyHash e he).symm.trans (LawfulHashable.hash_eq _ _ same)) differ

/-! ### Lookup -/

theorem get?_spec {path : List Nat} {n : Node κ ν} (h : WellFormed path n) (key : κ) :
    n.get? path.length (hash key) key = valueOf key n.toList := by
  induction h with
  | @leaf path h k v keyHash below =>
    rw [Node.get?, Node.toList, valueOf, List.find?_singleton]
    by_cases same : (k == key) = true
    · simp [same, ← keyHash, LawfulHashable.hash_eq _ _ same]
    · simp [same]
  | @collision path h entries keyHash below several distinct =>
    rw [Node.get?, Node.toList, valueOf]
    by_cases same : h = hash key
    · rw [if_pos same]
    · rw [if_neg same, find?_eq_none_iff_absent.mpr (absent_of_hash_ne keyHash same)]
      rfl
  | @branch path bitmap children depth count placed needed ih =>
    have wf := WellFormed.branch depth count placed needed
    rw [Node.get?]
    by_cases taken : bitmap.getLsbD (slot (hash key) path.length) = true
    · rw [if_pos taken]
      obtain ⟨before, child, after, f⟩ := wf.focus taken
      have found := ih _ f.mem_zip
      rw [List.length_append, List.length_singleton] at found
      rw [← f.place, f.split, getNth?_at, found, toList_branch, valueOf, valueOf,
        List.flatMap_append, List.flatMap_cons, ← List.append_assoc,
        find?_between f.absentBefore f.absentAfter]
    · rw [if_neg taken, valueOf,
        find?_eq_none_iff_absent.mpr (wf.absent_of_clear (by simpa using taken))]
      rfl

/-! ### Removal -/

/-- What holds of the outcome of a removal below a well-formed node. -/
structure RemovesFrom (path : List Nat) (n : Node κ ν) (key : κ) (r : Option (Node κ ν)) :
    Prop where
  wellFormed : ∀ new, r = some new → new = .empty ∨ WellFormed path new
  entries : Deletes key n.toList (r.map Node.toList)

omit [LawfulHashable κ] in
theorem WellFormed.isEmpty {path : List Nat} {n : Node κ ν} (h : WellFormed path n) :
    n.isEmpty = false := by
  cases h <;> rfl

omit [LawfulHashable κ] in
theorem collapse_spec {path : List Nat} {bitmap : BitVec 32} {children : List (Node κ ν)}
    (depth : path.length < levels) (h : Placed path (occupied bitmap) children) :
    (Node.collapse bitmap children = .empty ∨ WellFormed path (Node.collapse bitmap children)) ∧
      (Node.collapse bitmap children).toList = children.flatMap Node.toList := by
  rcases children with _ | ⟨child, _ | ⟨second, rest⟩⟩
  · rw [Node.collapse]
    exact ⟨.inl rfl, by rw [Node.toList, List.flatMap_nil]⟩
  · rw [Node.collapse]
    cases lone : child.isCollapsible with
    | false =>
      rw [if_neg (by simp)]
      exact ⟨.inr (.branch depth h.count h.child lone), toList_branch _ _⟩
    | true =>
      rw [if_pos rfl]
      obtain ⟨s, hs⟩ := exists_slot_of_mem h.count (List.mem_singleton_self child)
      exact ⟨.inr ((h.child _ hs).lift lone), by simp⟩
  · rw [Node.collapse]
    · exact ⟨.inr (.branch depth h.count h.child trivial), toList_branch _ _⟩
    · simp
    · simp

theorem remove_collision_spec {path : List Nat} {h : UInt64} {entries : List (κ × ν)} {key : κ}
    (keyHash : ∀ e ∈ entries, hash e.1 = h) (below : Follows path h)
    (several : 2 ≤ entries.length) (distinct : DistinctKeys entries) :
    RemovesFrom path (.collision h entries) key
      ((Node.collision h entries).remove path.length (hash key) key) := by
  rw [Node.remove]
  by_cases found : h = hash key ∧ entries.any (·.1 == key) = true
  · rw [if_pos found]
    obtain ⟨stored, hs, same⟩ := List.any_eq_true.mp found.2
    obtain ⟨stored, l, r, _, same, split, rest⟩ :=
      List.exists_of_eraseP (p := (·.1 == key)) hs same
    rw [rest]
    have fewer : (l ++ r).length + 1 = entries.length := by simp [split]; omega
    have kept : ∀ e ∈ l ++ r, hash e.1 = hash key := by
      intro e he
      rw [keyHash e (by rw [split]; simp at he ⊢; tauto), found.1]
    have apart : DistinctKeys (l ++ r) := by
      have part : (l ++ r).Sublist entries := by rw [split]; simp
      exact List.Pairwise.sublist part distinct
    have deleted : Deletes key (Node.collision h entries).toList (some (l ++ r)) := by
      rw [Node.toList]
      exact .present split same
    rw [found.1] at below
    rcases hlr : l ++ r with _ | ⟨⟨k, v⟩, _ | ⟨second, more⟩⟩
    · simp [hlr] at fewer
      omega
    · rw [hlr] at kept deleted
      refine ⟨?_, by simpa [Node.ofEntries, Node.toList] using deleted⟩
      rintro new ⟨⟩
      exact .inr (.leaf (kept _ List.mem_cons_self) below)
    · rw [hlr] at kept deleted apart
      refine ⟨?_, by simpa [Node.ofEntries, Node.toList] using deleted⟩
      rintro new ⟨⟩
      exact .inr (.collision kept below (by simp) apart)
  · rw [if_neg found]
    refine ⟨by simp, .absent ?_⟩
    rw [Node.toList]
    by_cases shared : h = hash key
    · intro e he
      have none : entries.any (·.1 == key) = false := by simpa [shared] using found
      simpa using List.any_eq_false.mp none e he
    · exact absent_of_hash_ne keyHash shared

omit [LawfulHashable κ] in
/-- A child that becomes empty is dropped with its slot, another one is put in its place. -/
theorem remove_taken_spec {path : List Nat} {bitmap : BitVec 32}
    {children before after : List (Node κ ν)} {child new : Node κ ν} {key : κ}
    (depth : path.length < levels) (f : Focus path bitmap children key before child after)
    (h : RemovesFrom (path ++ [slot (hash key) path.length]) child key (some new)) :
    RemovesFrom path (.branch bitmap children) key
      (some (if new.isEmpty
        then .collapse (bitmap &&& ~~~slotBit (slot (hash key) path.length)) (before ++ after)
        else .collapse bitmap (before ++ new :: after))) := by
  have deleted := h.entries.between f.absentBefore f.absentAfter
  have old : (Node.branch bitmap children).toList =
      before.flatMap Node.toList ++ child.toList ++ after.flatMap Node.toList := by
    rw [toList_branch, f.split, List.flatMap_append, List.flatMap_cons, ← List.append_assoc]
  rw [← old] at deleted
  rcases h.wellFormed new rfl with rfl | wf
  · have left : Placed path
        (occupied (bitmap &&& ~~~slotBit (slot (hash key) path.length))) (before ++ after) := by
      rw [occupied_and_not_slotBit bitmap (slot_lt (hash key) path.length)]
      exact f.placedBefore.append f.placedAfter
    obtain ⟨shape, entries⟩ := collapse_spec depth left
    rw [Node.isEmpty, if_pos rfl]
    refine ⟨by rintro _ ⟨⟩; exact shape, ?_⟩
    rw [Option.map_some, entries, List.flatMap_append]
    simpa [Node.toList] using deleted
  · have all := f.placedBefore.append (placed_cons.mpr ⟨wf, f.placedAfter⟩)
    rw [← f.slots] at all
    obtain ⟨shape, entries⟩ := collapse_spec depth all
    rw [wf.isEmpty, if_neg (by simp)]
    refine ⟨by rintro _ ⟨⟩; exact shape, ?_⟩
    rw [Option.map_some, entries, List.flatMap_append, List.flatMap_cons, ← List.append_assoc]
    simpa using deleted

theorem remove_spec {path : List Nat} {n : Node κ ν} (h : WellFormed path n) (key : κ) :
    RemovesFrom path n key (n.remove path.length (hash key) key) := by
  induction h with
  | @leaf path h k v keyHash below =>
    rw [Node.remove]
    by_cases found : h = hash key ∧ (k == key) = true
    · rw [if_pos found]
      refine ⟨by rintro _ ⟨⟩; exact .inl rfl, ?_⟩
      have taken : Deletes key [(k, v)] (some ([] ++ [])) := .present rfl found.2
      simpa [Node.toList] using taken
    · rw [if_neg found]
      refine ⟨by simp, .absent ?_⟩
      rw [Node.toList]
      by_cases shared : h = hash key
      · simpa [shared, Absent] using found
      · exact absent_of_hash_ne (by simpa using keyHash) shared
  | collision keyHash below several distinct =>
    exact remove_collision_spec keyHash below several distinct
  | @branch path bitmap children depth count placed needed ih =>
    have wf := WellFormed.branch depth count placed needed
    rw [Node.remove]
    by_cases taken : bitmap.getLsbD (slot (hash key) path.length) = true
    · rw [if_pos taken]
      obtain ⟨before, child, after, f⟩ := wf.focus taken
      have done := ih _ f.mem_zip
      rw [List.length_append, List.length_singleton] at done
      rw [← f.place]
      conv => enter [4]; rw [f.split]
      rw [removeNth_at]
      cases outcome : child.remove (path.length + 1) (hash key) key with
      | none =>
        rw [outcome] at done
        refine ⟨by simp, ?_⟩
        have := done.entries.between f.absentBefore f.absentAfter
        rw [toList_branch, f.split, List.flatMap_append, List.flatMap_cons, ← List.append_assoc]
        exact this
      | some new =>
        rw [outcome] at done
        have whole := remove_taken_spec depth f done
        rw [Option.map_some]
        cases gone : new.isEmpty with
        | true =>
          rw [gone] at whole
          simpa [f.split] using whole
        | false =>
          rw [gone] at whole
          simpa [f.split] using whole
    · rw [if_neg taken]
      exact ⟨by simp, .absent (wf.absent_of_clear (by simpa using taken))⟩

/-! ### Insertion -/

omit [BEq κ] [Hashable κ] [LawfulHashable κ] in
theorem insertIdx_between (before after : List (Node κ ν)) (new : Node κ ν) :
    (before ++ after).insertIdx before.length new = before ++ new :: after := by
  induction before with
  | nil => rfl
  | cons first before ih =>
    rw [List.cons_append, List.length_cons, List.insertIdx_succ_cons, ih, List.cons_append]

/-- What holds of the outcome of an insertion below a well-formed node. -/
structure InsertsInto (path : List Nat) (n : Node κ ν) (key : κ) (value : ν)
    [BEq ν] (r : Inserted (Node κ ν)) : Prop where
  wellFormed : ∀ new, r.result? = some new → WellFormed path new
  staysBranch : n.isCollapsible = false → ∀ new, r.result? = some new → new.isCollapsible = false
  entries : Inserts key value n.toList (r.map Node.toList)

variable [BEq ν]

/-- A new leaf beside entries of another hash. -/
theorem join_leaf_spec {path : List Nat} {n : Node κ ν} {h : UInt64} {key : κ} (value : ν)
    (differ : h ≠ hash key) (hn : ∀ p, Follows p h → WellFormed p n) (below : Follows path h)
    (fk : Follows path (hash key)) (keyHash : ∀ e ∈ n.toList, hash e.1 = h) :
    InsertsInto path n key value
      (.added (Node.join path.length n h (.leaf (hash key) key value) (hash key))) := by
  obtain ⟨wf, isBranch, entries⟩ := join_spec (b := .leaf (hash key) key value) differ hn
    (fun p hp => .leaf rfl hp) below fk
  refine ⟨?_, ?_, .added (absent_of_hash_ne keyHash differ) ?_⟩
  · rintro new ⟨⟩
    exact wf
  · rintro _ new ⟨⟩
    exact isBranch
  · rw [Node.toList] at entries
    exact entries.trans List.perm_append_comm

theorem insert_leaf_spec {path : List Nat} {h : UInt64} {k key : κ} {v : ν} (value : ν)
    (keyHash : hash k = h) (below : Follows path h) (fk : Follows path (hash key)) :
    InsertsInto path (.leaf h k v) key value
      ((Node.leaf h k v).insert path.length (hash key) key value) := by
  rw [Node.insert]
  by_cases shared : h = hash key
  · rw [if_pos shared]
    by_cases same : (k == key) = true
    · rw [if_pos same]
      by_cases equal : (v == value) = true
      · rw [if_pos equal]
        refine ⟨?_, ?_, .unchanged (l := []) (by rw [Node.toList, List.nil_append]) same equal⟩
        · intro new hnew
          cases hnew
        · intro single
          cases single
      · rw [if_neg equal]
        refine ⟨?_, fun single => ?_, ?_⟩
        · rintro new ⟨⟩
          exact .leaf rfl fk
        · cases single
        · have put : Inserts key value [(k, v)] (.replaced ([] ++ [(key, value)])) :=
            .replaced rfl same (by simpa using equal)
          simpa [Node.toList, Inserted.map] using put
    · rw [if_neg same]
      have apart : (k == key) = false := by simpa using same
      refine ⟨?_, fun single => ?_, .added (by simpa [Absent, Node.toList] using apart) ?_⟩
      · rintro new ⟨⟩
        refine .collision ?_ fk (by simp) (by simpa [DistinctKeys] using apart)
        simp [keyHash, shared]
      · cases single
      · simpa [Node.toList] using List.Perm.swap (key, value) (k, v) []
  · rw [if_neg shared]
    exact join_leaf_spec value shared (fun p hp => .leaf keyHash hp) below fk
      (by simpa [Node.toList] using keyHash)

theorem insert_collision_spec [EquivBEq κ] {path : List Nat} {h : UInt64} {entries : List (κ × ν)}
    {key : κ} (value : ν) (keyHash : ∀ e ∈ entries, hash e.1 = h) (below : Follows path h)
    (several : 2 ≤ entries.length) (distinct : DistinctKeys entries)
    (fk : Follows path (hash key)) :
    InsertsInto path (.collision h entries) key value
      ((Node.collision h entries).insert path.length (hash key) key value) := by
  rw [Node.insert]
  by_cases shared : h = hash key
  · rw [if_pos shared]
    have done := insertEntry_spec key value entries
    refine ⟨?_, fun single => ?_, ?_⟩
    · intro new hnew
      rw [Inserted.result?_map, Option.map_eq_some_iff] at hnew
      obtain ⟨l, hl, rfl⟩ := hnew
      refine .collision ?_ fk (Nat.le_trans several (done.length_le hl)) (done.distinct distinct hl)
      intro e he
      rcases done.mem_result hl he with old | rfl
      · exact (keyHash e old).trans shared
      · rfl
    · cases single
    · rw [Inserted.map_map, Node.toList]
      have plain : Node.toList ∘ Node.collision (hash key) = fun l : List (κ × ν) => l := by
        funext l
        rw [Function.comp, Node.toList]
      rw [plain]
      simpa using done.between (absent_nil key) (absent_nil key)
  · rw [if_neg shared]
    exact join_leaf_spec value shared (fun p hp => .collision keyHash hp several distinct) below fk
      (by rwa [Node.toList])

/-- A key whose slot is free gets a leaf of its own there. -/
theorem insert_clear_spec {path : List Nat} {bitmap : BitVec 32} {children : List (Node κ ν)}
    {key : κ} (value : ν) (wf : WellFormed path (.branch bitmap children))
    (fk : Follows path (hash key))
    (free : bitmap.getLsbD (slot (hash key) path.length) = false) :
    InsertsInto path (.branch bitmap children) key value
      (.added (.branch (bitmap ||| slotBit (slot (hash key) path.length))
        (children.insertIdx (rank bitmap (slot (hash key) path.length))
          (.leaf (hash key) key value)))) := by
  have nowhere := wf.absent_of_clear free
  cases wf with
  | branch depth count placed needed =>
    rw [occupied_of_clear (slot_lt _ _) free] at count placed
    obtain ⟨before, after, rfl, len, hb, ha⟩ := Placed.split_clear ⟨count, placed⟩
    rw [← length_occupiedBelow, ← len, insertIdx_between]
    have leafPlaced : WellFormed (path ++ [slot (hash key) path.length])
        (.leaf (hash key) key value : Node κ ν) := .leaf rfl (follows_snoc.mpr ⟨fk, rfl⟩)
    have all := hb.append (placed_cons.mpr ⟨leafPlaced, ha⟩)
    rw [← occupied_or_slotBit bitmap (slot_lt _ _)] at all
    refine ⟨?_, ?_, .added nowhere ?_⟩
    · rintro new ⟨⟩
      exact .branch depth all.count all.child (needed.insert _)
    · rintro _ new ⟨⟩
      rfl
    · rw [toList_branch, toList_branch, List.flatMap_append, List.flatMap_append,
        List.flatMap_cons, Node.toList]
      exact List.perm_middle

omit [LawfulHashable κ] in
theorem insert_taken_spec {path : List Nat} {bitmap : BitVec 32}
    {children before after : List (Node κ ν)} {child : Node κ ν} {key : κ} (value : ν)
    (wf : WellFormed path (.branch bitmap children))
    (f : Focus path bitmap children key before child after) {r : Inserted (Node κ ν)}
    (h : InsertsInto (path ++ [slot (hash key) path.length]) child key value r) :
    InsertsInto path (.branch bitmap children) key value
      (r.map fun new => .branch bitmap (before ++ new :: after)) := by
  cases wf with
  | branch depth _ _ needed =>
    refine ⟨?_, ?_, ?_⟩
    · intro new hnew
      rw [Inserted.result?_map, Option.map_eq_some_iff] at hnew
      obtain ⟨c, hc, rfl⟩ := hnew
      have all := f.placedBefore.append (placed_cons.mpr ⟨h.wellFormed c hc, f.placedAfter⟩)
      rw [← f.slots] at all
      refine .branch depth all.count all.child ?_
      rw [f.split] at needed
      exact needed.replace fun hn => h.staysBranch hn c hc
    · intro _ new hnew
      rw [Inserted.result?_map, Option.map_eq_some_iff] at hnew
      obtain ⟨c, _, rfl⟩ := hnew
      rfl
    · have done := h.entries.between f.absentBefore f.absentAfter
      rw [Inserted.map_map] at done ⊢
      have joined : (Node.toList ∘ fun new : Node κ ν => .branch bitmap (before ++ new :: after)) =
          (fun l => before.flatMap Node.toList ++ l ++ after.flatMap Node.toList) ∘
            Node.toList := by
        funext new
        simp [toList_branch]
      rw [joined, toList_branch, f.split, List.flatMap_append, List.flatMap_cons,
        ← List.append_assoc]
      exact done

theorem insert_spec [EquivBEq κ] {path : List Nat} {n : Node κ ν} (h : WellFormed path n) {key : κ}
    (value : ν) (fk : Follows path (hash key)) :
    InsertsInto path n key value (n.insert path.length (hash key) key value) := by
  induction h with
  | leaf keyHash below => exact insert_leaf_spec value keyHash below fk
  | collision keyHash below several distinct =>
    exact insert_collision_spec value keyHash below several distinct fk
  | @branch path bitmap children depth count placed needed ih =>
    have wf := WellFormed.branch depth count placed needed
    rw [Node.insert]
    by_cases taken : bitmap.getLsbD (slot (hash key) path.length) = true
    · rw [if_pos taken]
      obtain ⟨before, child, after, f⟩ := wf.focus taken
      have done := ih _ f.mem_zip (follows_snoc.mpr ⟨fk, rfl⟩)
      rw [List.length_append, List.length_singleton] at done
      have whole := insert_taken_spec value wf f done
      rwa [← f.place, f.split, insertNth_at, Inserted.map_map, ← f.split]
    · rw [if_neg taken]
      exact insert_clear_spec value wf fk (by simpa using taken)

end ModuleSystem.Trie
