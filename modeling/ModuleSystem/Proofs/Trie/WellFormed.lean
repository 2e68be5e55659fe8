import ModuleSystem.Proofs.Trie.Slots

/-! What every node below the root of a trie keeps: all hashes below it take the slots that lead to
it, a branch has one child for each occupied slot and is not a mere detour to a lone entry, and the
entries of a collision are several and have pairwise different keys. So a key can only be where its
hash leads, and no key is stored twice. -/

namespace ModuleSystem.Trie

variable {κ ν : Type}

/-- The slices of `hash`, from the first one on, are the slots of `path`. -/
def Follows (path : List Nat) (hash : UInt64) : Prop :=
  (List.range path.length).map (slot hash) = path

theorem follows_nil (hash : UInt64) : Follows [] hash := rfl

theorem follows_snoc {path : List Nat} {s : Nat} {hash : UInt64} :
    Follows (path ++ [s]) hash ↔ Follows path hash ∧ slot hash path.length = s := by
  rw [Follows, List.length_append, List.length_singleton, List.range_succ, List.map_append]
  constructor
  · intro h
    obtain ⟨above, last⟩ := List.append_inj h (by simp)
    exact ⟨above, by simpa using last⟩
  · rintro ⟨above, last⟩
    rw [above, List.map_singleton, last]

/-- Hashes that take the same slots on all levels are equal. -/
theorem Follows.eq {path : List Nat} {a b : UInt64} (ha : Follows path a) (hb : Follows path b)
    (full : levels ≤ path.length) : a = b := by
  apply eq_of_slots
  intro d hd
  have same : (List.range path.length).map (slot a) = (List.range path.length).map (slot b) :=
    ha.trans hb.symm
  exact List.map_inj_left.mp same d (List.mem_range.mpr (by omega))

/-- A branch is needed for several children, or for one that is a branch itself. -/
def NeedsBranch : List (Node κ ν) → Prop
  | [] => False
  | [child] => child.isCollapsible = false
  | _ => True

/-- A replaced child keeps a branch needed, if it stays a branch when it was one. -/
theorem NeedsBranch.replace {before after : List (Node κ ν)} {child new : Node κ ν}
    (h : NeedsBranch (before ++ child :: after))
    (keeps : child.isCollapsible = false → new.isCollapsible = false) :
    NeedsBranch (before ++ new :: after) := by
  cases before with
  | nil =>
    cases after with
    | nil => exact keeps h
    | cons => trivial
  | cons _ rest => cases rest <;> trivial

theorem NeedsBranch.insert {before after : List (Node κ ν)} (h : NeedsBranch (before ++ after))
    (new : Node κ ν) : NeedsBranch (before ++ new :: after) := by
  cases before with
  | nil =>
    cases after with
    | nil => exact h.elim
    | cons => trivial
  | cons _ rest => cases rest <;> trivial

theorem listEntries_eq (children : List (Node κ ν)) :
    Node.listEntries children = children.flatMap Node.toList := by
  induction children with
  | nil => simp [Node.listEntries]
  | cons child rest ih => rw [Node.listEntries, ih, List.flatMap_cons]

theorem toList_branch (bitmap : BitVec 32) (children : List (Node κ ν)) :
    (Node.branch bitmap children).toList = children.flatMap Node.toList := by
  rw [Node.toList, listEntries_eq]

theorem exists_slot_of_mem {slots : List Nat} {children : List (Node κ ν)} {child : Node κ ν}
    (count : slots.length = children.length) (h : child ∈ children) :
    ∃ s, (s, child) ∈ slots.zip children := by
  obtain ⟨i, hi, rfl⟩ := List.mem_iff_getElem.mp h
  exact ⟨slots[i], List.mem_iff_getElem.mpr ⟨i, by simp [count, hi], by simp⟩⟩

section
variable [BEq κ]

def DistinctKeys (entries : List (κ × ν)) : Prop :=
  entries.Pairwise fun a b => (a.1 == b.1) = false

/-- No entry has a key equal to `key`. -/
def Absent (key : κ) (entries : List (κ × ν)) : Prop := ∀ e ∈ entries, (e.1 == key) = false

theorem absent_nil (key : κ) : Absent key ([] : List (κ × ν)) := by simp [Absent]

theorem absent_append {key : κ} {a b : List (κ × ν)} :
    Absent key (a ++ b) ↔ Absent key a ∧ Absent key b :=
  List.forall_mem_append

theorem find?_eq_none_iff_absent {key : κ} {l : List (κ × ν)} :
    l.find? (·.1 == key) = none ↔ Absent key l := by
  simp [List.find?_eq_none, Absent]

variable [Hashable κ]

/-- The nodes that may stand behind the slots of a path. -/
inductive WellFormed : List Nat → Node κ ν → Prop where
  | leaf {path : List Nat} {h : UInt64} {key : κ} {value : ν} (keyHash : hash key = h)
      (below : Follows path h) : WellFormed path (.leaf h key value)
  | collision {path : List Nat} {h : UInt64} {entries : List (κ × ν)}
      (keyHash : ∀ e ∈ entries, hash e.1 = h) (below : Follows path h)
      (several : 2 ≤ entries.length) (distinct : DistinctKeys entries) :
      WellFormed path (.collision h entries)
  | branch {path : List Nat} {bitmap : BitVec 32} {children : List (Node κ ν)}
      (depth : path.length < levels) (count : (occupied bitmap).length = children.length)
      (placed : ∀ p ∈ (occupied bitmap).zip children, WellFormed (path ++ [p.1]) p.2)
      (needed : NeedsBranch children) : WellFormed path (.branch bitmap children)

/-- Each child is well-formed behind its slot. -/
structure Placed (path slots : List Nat) (children : List (Node κ ν)) : Prop where
  count : slots.length = children.length
  child : ∀ p ∈ slots.zip children, WellFormed (path ++ [p.1]) p.2

theorem Placed.nil (path : List Nat) : Placed path [] ([] : List (Node κ ν)) :=
  ⟨rfl, by simp⟩

theorem placed_cons {path slots : List Nat} {s : Nat} {child : Node κ ν}
    {children : List (Node κ ν)} :
    Placed path (s :: slots) (child :: children) ↔
      WellFormed (path ++ [s]) child ∧ Placed path slots children := by
  constructor
  · rintro ⟨count, each⟩
    rw [List.zip_cons_cons, List.forall_mem_cons] at each
    exact ⟨each.1, by simpa using count, each.2⟩
  · rintro ⟨first, count, each⟩
    exact ⟨by simp [count], by rw [List.zip_cons_cons, List.forall_mem_cons]; exact ⟨first, each⟩⟩

theorem Placed.append {path s₁ s₂ : List Nat} {c₁ c₂ : List (Node κ ν)} (h₁ : Placed path s₁ c₁)
    (h₂ : Placed path s₂ c₂) : Placed path (s₁ ++ s₂) (c₁ ++ c₂) := by
  refine ⟨by simp [h₁.count, h₂.count], ?_⟩
  rw [List.zip_append h₁.count]
  exact List.forall_mem_append.mpr ⟨h₁.child, h₂.child⟩

theorem Placed.split {path s₁ s₂ : List Nat} {s : Nat} {children : List (Node κ ν)}
    (h : Placed path (s₁ ++ s :: s₂) children) :
    ∃ before child after, children = before ++ child :: after ∧ before.length = s₁.length ∧
      Placed path s₁ before ∧ WellFormed (path ++ [s]) child ∧ Placed path s₂ after := by
  induction s₁ generalizing children with
  | nil =>
    cases children with
    | nil => exact absurd h.count (by simp)
    | cons child after =>
      obtain ⟨here, rest⟩ := placed_cons.mp h
      exact ⟨[], child, after, rfl, rfl, .nil path, here, rest⟩
  | cons t s₁ ih =>
    cases children with
    | nil => exact absurd h.count (by simp)
    | cons first children =>
      obtain ⟨here, rest⟩ := placed_cons.mp h
      obtain ⟨before, child, after, rfl, len, hb, hc, ha⟩ := ih rest
      exact ⟨first :: before, child, after, rfl, by simp [len], placed_cons.mpr ⟨here, hb⟩, hc, ha⟩

theorem Placed.split_clear {path s₁ s₂ : List Nat} {children : List (Node κ ν)}
    (h : Placed path (s₁ ++ s₂) children) :
    ∃ before after, children = before ++ after ∧ before.length = s₁.length ∧
      Placed path s₁ before ∧ Placed path s₂ after := by
  induction s₁ generalizing children with
  | nil => exact ⟨[], children, rfl, rfl, .nil path, h⟩
  | cons t s₁ ih =>
    cases children with
    | nil => exact absurd h.count (by simp)
    | cons first children =>
      obtain ⟨here, rest⟩ := placed_cons.mp h
      obtain ⟨before, after, rfl, len, hb, ha⟩ := ih rest
      exact ⟨first :: before, after, rfl, by simp [len], placed_cons.mpr ⟨here, hb⟩, ha⟩

theorem WellFormed.follows {path : List Nat} {n : Node κ ν} (h : WellFormed path n) :
    ∀ e ∈ n.toList, Follows path (hash e.1) := by
  induction h with
  | leaf keyHash below =>
    intro e he
    rw [Node.toList, List.mem_singleton] at he
    rwa [he, keyHash]
  | collision keyHash below _ _ =>
    intro e he
    rw [Node.toList] at he
    rwa [keyHash e he]
  | branch _ count _ _ ih =>
    intro e he
    rw [toList_branch, List.mem_flatMap] at he
    obtain ⟨child, hc, he⟩ := he
    obtain ⟨s, hs⟩ := exists_slot_of_mem count hc
    exact (follows_snoc.mp (ih _ hs e he)).1

/-- An entry below one of several children has a hash that takes one of their slots. -/
theorem Placed.slot_mem {path slots : List Nat} {children : List (Node κ ν)}
    (h : Placed path slots children) {e : κ × ν} (he : e ∈ children.flatMap Node.toList) :
    slot (hash e.1) path.length ∈ slots := by
  obtain ⟨child, hc, he⟩ := List.mem_flatMap.mp he
  obtain ⟨s, hs⟩ := exists_slot_of_mem h.count hc
  rw [(follows_snoc.mp ((h.child _ hs).follows e he)).2]
  exact (List.of_mem_zip hs).1

/-- Leaves and collisions may stand higher up on their way. -/
theorem WellFormed.lift {path : List Nat} {s : Nat} {n : Node κ ν}
    (h : WellFormed (path ++ [s]) n) (hn : n.isCollapsible = true) : WellFormed path n := by
  cases h with
  | leaf keyHash below => exact .leaf keyHash (follows_snoc.mp below).1
  | collision keyHash below several distinct =>
    exact .collision keyHash (follows_snoc.mp below).1 several distinct
  | branch => simp [Node.isCollapsible] at hn

variable [LawfulHashable κ]

/-- A key whose slot is not taken by any of the children is not below them. -/
theorem Placed.absent {path slots : List Nat} {children : List (Node κ ν)}
    (h : Placed path slots children) {key : κ} (hk : slot (hash key) path.length ∉ slots) :
    Absent key (children.flatMap Node.toList) := by
  intro e he
  cases same : e.1 == key with
  | false => rfl
  | true =>
    have := h.slot_mem he
    rw [LawfulHashable.hash_eq _ _ same] at this
    exact absurd this hk

theorem Placed.distinct {path slots : List Nat} {children : List (Node κ ν)}
    (h : Placed path slots children) (sorted : slots.Nodup)
    (each : ∀ child ∈ children, DistinctKeys child.toList) :
    DistinctKeys (children.flatMap Node.toList) := by
  induction children generalizing slots with
  | nil => simp [DistinctKeys]
  | cons child rest ih =>
    cases slots with
    | nil => exact absurd h.count (by simp)
    | cons s slots =>
      obtain ⟨here, later⟩ := placed_cons.mp h
      obtain ⟨fresh, sorted⟩ := List.nodup_cons.mp sorted
      rw [List.forall_mem_cons] at each
      rw [List.flatMap_cons, DistinctKeys, List.pairwise_append]
      refine ⟨each.1, ih later sorted each.2, ?_⟩
      intro a ha b hb
      cases same : a.1 == b.1 with
      | false => rfl
      | true =>
        have atA := (follows_snoc.mp (here.follows a ha)).2
        have atB := later.slot_mem hb
        rw [← LawfulHashable.hash_eq _ _ same, atA] at atB
        exact absurd atB fresh

theorem WellFormed.distinct {path : List Nat} {n : Node κ ν} (h : WellFormed path n) :
    DistinctKeys n.toList := by
  induction h with
  | leaf => simp [Node.toList, DistinctKeys]
  | collision _ _ _ distinct => rwa [Node.toList]
  | branch _ count placed _ ih =>
    rw [toList_branch]
    apply Placed.distinct ⟨count, placed⟩ (List.nodup_range.filter _)
    intro child hc
    obtain ⟨s, hs⟩ := exists_slot_of_mem count hc
    exact ih _ hs

/-- The child of a branch that a key leads to. The key is below no other child. -/
structure Focus (path : List Nat) (bitmap : BitVec 32) (children : List (Node κ ν)) (key : κ)
    (before : List (Node κ ν)) (child : Node κ ν) (after : List (Node κ ν)) : Prop where
  split : children = before ++ child :: after
  place : before.length = rank bitmap (slot (hash key) path.length)
  slots : occupied bitmap = occupiedBelow bitmap (slot (hash key) path.length) ++
    slot (hash key) path.length :: occupiedAbove bitmap (slot (hash key) path.length)
  placedBefore : Placed path (occupiedBelow bitmap (slot (hash key) path.length)) before
  placedAfter : Placed path (occupiedAbove bitmap (slot (hash key) path.length)) after
  absentBefore : Absent key (before.flatMap Node.toList)
  absentAfter : Absent key (after.flatMap Node.toList)

omit [LawfulHashable κ] in
theorem Focus.mem_zip {path : List Nat} {bitmap : BitVec 32}
    {children before after : List (Node κ ν)} {child : Node κ ν} {key : κ}
    (f : Focus path bitmap children key before child after) :
    (slot (hash key) path.length, child) ∈ (occupied bitmap).zip children := by
  rw [f.slots, f.split, List.zip_append f.placedBefore.count]
  exact List.mem_append_right _ List.mem_cons_self

theorem WellFormed.focus {path : List Nat} {bitmap : BitVec 32} {children : List (Node κ ν)}
    (h : WellFormed path (.branch bitmap children)) {key : κ}
    (taken : bitmap.getLsbD (slot (hash key) path.length) = true) :
    ∃ before child after, Focus path bitmap children key before child after := by
  have slots := occupied_of_set (slot_lt (hash key) path.length) taken
  cases h with
  | branch _ count placed _ =>
    rw [slots] at count placed
    obtain ⟨before, child, after, split, len, hb, _, ha⟩ := Placed.split ⟨count, placed⟩
    refine ⟨before, child, after, split, len.trans (length_occupiedBelow _ _), slots, hb, ha,
      ?_, ?_⟩
    · exact hb.absent fun hm => absurd (mem_occupiedBelow hm) (Nat.lt_irrefl _)
    · exact ha.absent fun hm => absurd (mem_occupiedAbove hm) (Nat.lt_irrefl _)

theorem WellFormed.absent_of_clear {path : List Nat} {bitmap : BitVec 32}
    {children : List (Node κ ν)} (h : WellFormed path (.branch bitmap children)) {key : κ}
    (hs : bitmap.getLsbD (slot (hash key) path.length) = false) :
    Absent key (Node.branch bitmap children).toList := by
  cases h with
  | branch _ count placed _ =>
    rw [toList_branch]
    apply Placed.absent ⟨count, placed⟩
    intro hm
    simp [occupied, hs] at hm

end

end ModuleSystem.Trie
