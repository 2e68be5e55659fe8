import ModuleSystem.Proofs.Trie.FiniteMap

/-! A trie compares keys only where their hashes agree. So equal keys with different hashes are
different keys to it, and on any hash function at all it works as on a lawful one with the finer
equality `sameKey`. -/

namespace ModuleSystem.Trie

variable {κ ν : Type} [BEq κ] [Hashable κ]

/-- Equality of keys that have one hash. -/
def sameKey (a b : κ) : Bool := hash a == hash b && a == b

/-- The equality of keys that a trie goes by. -/
abbrev bySameKey (κ : Type) [BEq κ] [Hashable κ] : BEq κ := ⟨sameKey⟩

theorem sameKey_iff {a b : κ} : sameKey a b = true ↔ hash a = hash b ∧ (a == b) = true := by
  simp [sameKey]

theorem sameKey_eq_of_hash {a b : κ} (h : hash a = hash b) : sameKey a b = (a == b) := by
  simp [sameKey, h]

theorem beq_bySameKey (a b : κ) : @BEq.beq κ (bySameKey κ) a b = sameKey a b := rfl

/-- For a lawful hash function it is equality. -/
theorem sameKey_eq [LawfulHashable κ] (a b : κ) : sameKey a b = (a == b) := by
  by_cases same : (a == b) = true
  · exact sameKey_eq_of_hash (LawfulHashable.hash_eq a b same)
  · simp [sameKey, same]

theorem equivBEq_bySameKey [EquivBEq κ] : @EquivBEq κ (bySameKey κ) := by
  have refl : ∀ {a : κ}, sameKey a a = true := sameKey_iff.mpr ⟨rfl, BEq.rfl⟩
  have symm : ∀ {a b : κ}, sameKey a b = true → sameKey b a = true := by
    intro a b h
    obtain ⟨hashes, keys⟩ := sameKey_iff.mp h
    exact sameKey_iff.mpr ⟨hashes.symm, BEq.symm keys⟩
  have trans : ∀ {a b c : κ}, sameKey a b = true → sameKey b c = true → sameKey a c = true := by
    intro a b c h h'
    obtain ⟨hashes, keys⟩ := sameKey_iff.mp h
    obtain ⟨hashes', keys'⟩ := sameKey_iff.mp h'
    exact sameKey_iff.mpr ⟨hashes.trans hashes', BEq.trans keys keys'⟩
  exact @EquivBEq.mk κ (bySameKey κ) (@PartialEquivBEq.mk κ (bySameKey κ) symm trans)
    (@ReflBEq.mk κ (bySameKey κ) refl)

theorem lawfulHashable_bySameKey : @LawfulHashable κ (bySameKey κ) _ :=
  @LawfulHashable.mk κ (bySameKey κ) _ fun _ _ h => (sameKey_iff.mp h).1

/-- Whether the entries of one hash have different keys does not depend on the hash function. -/
theorem distinctKeys_bySameKey {entries : List (κ × ν)} {h : UInt64}
    (keyHash : ∀ e ∈ entries, hash e.1 = h) :
    @DistinctKeys κ ν (bySameKey κ) entries ↔ DistinctKeys entries := by
  have same : ∀ a ∈ entries, ∀ b ∈ entries, sameKey a.1 b.1 = (a.1 == b.1) := fun a ha b hb =>
    sameKey_eq_of_hash ((keyHash a ha).trans (keyHash b hb).symm)
  refine List.Pairwise.iff_of_mem fun {a b} ha hb => ?_
  rw [← same a ha b hb]
  exact Iff.rfl

theorem wellFormed_bySameKey {path : List Nat} {n : Node κ ν} :
    @WellFormed κ ν (bySameKey κ) _ path n ↔ WellFormed path n := by
  constructor
  · intro h
    induction h with
    | leaf keyHash below => exact .leaf keyHash below
    | collision keyHash below several distinct =>
      exact .collision keyHash below several ((distinctKeys_bySameKey keyHash).mp distinct)
    | branch depth count _ needed ih => exact .branch depth count ih needed
  · intro h
    induction h with
    | leaf keyHash below => exact @WellFormed.leaf κ ν (bySameKey κ) _ _ _ _ _ keyHash below
    | collision keyHash below several distinct =>
      exact @WellFormed.collision κ ν (bySameKey κ) _ _ _ _ keyHash below several
        ((distinctKeys_bySameKey keyHash).mpr distinct)
    | branch depth count _ needed ih =>
      exact @WellFormed.branch κ ν (bySameKey κ) _ _ _ _ depth count ih needed

/-- The child behind an occupied slot, at its place. -/
theorem WellFormed.child {path : List Nat} {bitmap : BitVec 32} {children : List (Node κ ν)}
    (h : WellFormed path (.branch bitmap children)) {s : Nat} (hs : s < 32)
    (taken : bitmap.getLsbD s = true) :
    ∃ before child after, children = before ++ child :: after ∧ before.length = rank bitmap s ∧
      (s, child) ∈ (occupied bitmap).zip children := by
  have slots := occupied_of_set hs taken
  cases h with
  | branch _ count placed _ =>
    rw [slots] at count placed
    obtain ⟨before, child, after, rfl, len, _⟩ := Placed.split ⟨count, placed⟩
    refine ⟨before, child, after, rfl, len.trans (length_occupiedBelow _ _), ?_⟩
    rw [slots, List.zip_append len.symm]
    exact List.mem_append_right _ List.mem_cons_self

theorem get?_bySameKey {path : List Nat} {n : Node κ ν} (h : WellFormed path n) (key : κ) :
    @Node.get? κ ν (bySameKey κ) path.length (hash key) key n =
      n.get? path.length (hash key) key := by
  induction h with
  | @leaf path h k v keyHash below =>
    simp only [Node.get?, beq_bySameKey]
    by_cases shared : h = hash key
    · simp only [sameKey_eq_of_hash (keyHash.trans shared)]
    · simp only [shared, false_and, if_false]
  | @collision path h entries keyHash below several distinct =>
    simp only [Node.get?, beq_bySameKey]
    by_cases shared : h = hash key
    · rw [List.find?_congr fun e he => sameKey_eq_of_hash ((keyHash e he).trans shared)]
    · rw [if_neg shared, if_neg shared]
  | @branch path bitmap children depth count placed needed ih =>
    simp only [Node.get?]
    by_cases taken : bitmap.getLsbD (slot (hash key) path.length) = true
    · obtain ⟨before, child, after, rfl, place, mem⟩ :=
        (WellFormed.branch depth count placed needed).child (slot_lt _ _) taken
      have below := ih _ mem
      rw [List.length_append, List.length_singleton] at below
      simp only [taken, if_true, ← place, getNth?_at, below]
    · rw [if_neg taken, if_neg taken]

theorem insertEntry_bySameKey [BEq ν] {entries : List (κ × ν)} {key : κ} (value : ν)
    (keyHash : ∀ e ∈ entries, hash e.1 = hash key) :
    @Node.insertEntry κ ν (bySameKey κ) _ key value entries =
      Node.insertEntry key value entries := by
  induction entries with
  | nil => rfl
  | cons e rest ih =>
    obtain ⟨first, later⟩ := List.forall_mem_cons.mp keyHash
    simp only [Node.insertEntry, beq_bySameKey, ih later, sameKey_eq_of_hash first]

theorem insert_bySameKey [BEq ν] {path : List Nat} {n : Node κ ν} (h : WellFormed path n) (key : κ)
    (value : ν) :
    @Node.insert κ ν (bySameKey κ) _ path.length (hash key) key value n =
      n.insert path.length (hash key) key value := by
  induction h with
  | @leaf path h k v keyHash below =>
    simp only [Node.insert, beq_bySameKey]
    by_cases shared : h = hash key
    · simp only [sameKey_eq_of_hash (keyHash.trans shared)]
    · rw [if_neg shared, if_neg shared]
  | @collision path h entries keyHash below several distinct =>
    simp only [Node.insert]
    by_cases shared : h = hash key
    · rw [insertEntry_bySameKey value fun e he => (keyHash e he).trans shared]
    · rw [if_neg shared, if_neg shared]
  | @branch path bitmap children depth count placed needed ih =>
    simp only [Node.insert]
    by_cases taken : bitmap.getLsbD (slot (hash key) path.length) = true
    · obtain ⟨before, child, after, rfl, place, mem⟩ :=
        (WellFormed.branch depth count placed needed).child (slot_lt _ _) taken
      have below := ih _ mem
      rw [List.length_append, List.length_singleton] at below
      simp only [taken, if_true, ← place, insertNth_at, below]
    · rw [if_neg taken, if_neg taken]

omit [BEq κ] [Hashable κ] in
theorem eraseP_congr {p q : κ × ν → Bool} {entries : List (κ × ν)}
    (agree : ∀ e ∈ entries, p e = q e) : entries.eraseP p = entries.eraseP q := by
  induction entries with
  | nil => rfl
  | cons e rest ih =>
    obtain ⟨first, later⟩ := List.forall_mem_cons.mp agree
    rw [List.eraseP_cons, List.eraseP_cons, first, ih later]

theorem remove_bySameKey {path : List Nat} {n : Node κ ν} (h : WellFormed path n) (key : κ) :
    @Node.remove κ ν (bySameKey κ) path.length (hash key) key n =
      n.remove path.length (hash key) key := by
  induction h with
  | @leaf path h k v keyHash below =>
    simp only [Node.remove, beq_bySameKey]
    by_cases shared : h = hash key
    · simp only [sameKey_eq_of_hash (keyHash.trans shared)]
    · simp only [shared, false_and, if_false]
  | @collision path h entries keyHash below several distinct =>
    simp only [Node.remove, beq_bySameKey]
    by_cases shared : h = hash key
    · have same : ∀ e ∈ entries, sameKey e.1 key = (e.1 == key) := fun e he =>
        sameKey_eq_of_hash ((keyHash e he).trans shared)
      have any : entries.any (fun e => sameKey e.1 key) = entries.any (·.1 == key) := by
        rw [Bool.eq_iff_iff, List.any_eq_true, List.any_eq_true]
        exact exists_congr fun e => and_congr_right fun he => by rw [same e he]
      rw [any, eraseP_congr same]
    · simp only [shared, false_and, if_false]
  | @branch path bitmap children depth count placed needed ih =>
    simp only [Node.remove]
    by_cases taken : bitmap.getLsbD (slot (hash key) path.length) = true
    · obtain ⟨before, child, after, rfl, place, mem⟩ :=
        (WellFormed.branch depth count placed needed).child (slot_lt _ _) taken
      have below := ih _ mem
      rw [List.length_append, List.length_singleton] at below
      simp only [taken, if_true, ← place, removeNth_at, below]
    · rw [if_neg taken, if_neg taken]

namespace Sound

variable {t : Trie κ ν}

theorem bySameKey_iff : @Sound κ ν (bySameKey κ) _ t ↔ Sound t := by
  constructor
  · rintro ⟨root, size⟩
    exact ⟨root.imp_right wellFormed_bySameKey.mp, size⟩
  · rintro ⟨root, size⟩
    exact @Sound.mk κ ν (bySameKey κ) _ t (root.imp_right wellFormed_bySameKey.mpr) size

theorem get?_bySameKey (h : Sound t) (key : κ) :
    @Trie.get? κ ν (bySameKey κ) _ t key = t.get? key := by
  unfold Trie.get?
  obtain empty | wf := h.root
  · simp only [empty, Node.get?]
  · exact Trie.get?_bySameKey wf key

theorem contains_bySameKey (h : Sound t) (key : κ) :
    @Trie.contains κ ν (bySameKey κ) _ t key = t.contains key := by
  unfold Trie.contains
  rw [h.get?_bySameKey]

theorem root_insert_bySameKey [BEq ν] (h : Sound t) (key : κ) (value : ν) :
    @Node.insert κ ν (bySameKey κ) _ 0 (hash key) key value t.root =
      t.root.insert 0 (hash key) key value := by
  obtain empty | wf := h.root
  · simp only [empty, Node.insert]
  · exact Trie.insert_bySameKey wf key value

theorem root_remove_bySameKey (h : Sound t) (key : κ) :
    @Node.remove κ ν (bySameKey κ) 0 (hash key) key t.root =
      t.root.remove 0 (hash key) key := by
  obtain empty | wf := h.root
  · simp only [empty, Node.remove]
  · exact Trie.remove_bySameKey wf key

theorem insert_bySameKey [BEq ν] (h : Sound t) (key : κ) (value : ν) :
    @Trie.insert κ ν (bySameKey κ) _ _ t key value = t.insert key value := by
  unfold Trie.insert
  rw [h.root_insert_bySameKey]

theorem remove_bySameKey (h : Sound t) (key : κ) :
    @Trie.remove κ ν (bySameKey κ) _ t key = t.remove key := by
  unfold Trie.remove
  rw [h.root_remove_bySameKey]

/-- The trie as the list of its entries. -/
theorem represents (h : Sound t) :
    @Represents κ ν (bySameKey κ) _ t t.toList :=
  @Represents.mk κ ν (bySameKey κ) _ t t.toList (bySameKey_iff.mpr h) (.refl _)

variable [EquivBEq κ] [BEq ν]

theorem insert (h : Sound t) (key : κ) (value : ν) : Sound (t.insert key value) := by
  have after := @Represents.insert κ ν (bySameKey κ) _ lawfulHashable_bySameKey
    equivBEq_bySameKey _ t t.toList h.represents key value
  rw [h.insert_bySameKey] at after
  exact bySameKey_iff.mp (@Represents.sound κ ν (bySameKey κ) _ _ _ after.1)

theorem remove (h : Sound t) (key : κ) : Sound (t.remove key) := by
  have after := @Represents.remove κ ν (bySameKey κ) _ lawfulHashable_bySameKey
    equivBEq_bySameKey _ t t.toList h.represents key
  rw [h.remove_bySameKey] at after
  exact bySameKey_iff.mp (@Represents.sound κ ν (bySameKey κ) _ _ _ after.1)

end Sound
end ModuleSystem.Trie
