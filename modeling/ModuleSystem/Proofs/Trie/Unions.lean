import ModuleSystem.Proofs.Trie.Bulk
import ModuleSystem.Proofs.Trie.Content

/-! A union puts the members of the smaller set into the larger one. Told by members, neither the
choice nor the order of the traversal is left in it; only the stored forms of common members tell
which of the two sets was the larger one. -/

namespace ModuleSystem

/-- A member in the form in which it is stored. -/
def TrieSet.stored? {κ : Type} [BEq κ] [Hashable κ] (s : TrieSet κ) (key : κ) : Option κ :=
  s.toList.find? (Trie.sameKey · key)

/-- The set that a union keeps the members of as they are stored. -/
def TrieSet.larger {κ : Type} (a b : TrieSet κ) : TrieSet κ := if a.size < b.size then b else a

/-- The set whose members a union puts into the other one. -/
def TrieSet.smaller {κ : Type} (a b : TrieSet κ) : TrieSet κ := if a.size < b.size then a else b

namespace Trie

variable {κ : Type} [BEq κ] [Hashable κ]

theorem trie_insertAll (s : TrieSet κ) (keys : List κ) :
    (s.insertAll keys).trie = s.trie.insertAll (keys.map (·, ())) := by
  induction keys generalizing s with
  | nil => rfl
  | cons key keys ih => exact ih (s.insert key)

theorem union_eq (a b : TrieSet κ) :
    a.union b = (a.larger b).insertAll (a.smaller b).toList := by
  rw [TrieSet.union, TrieSet.larger, TrieSet.smaller]
  split <;> rfl

/-- The members of one set put into another. -/
def joined (a b : TrieSet κ) : TrieSet κ := a.insertAll b.toList

theorem trie_joined (a b : TrieSet κ) : (joined a b).trie = a.trie.insertAll b.trie.toList := by
  have units : b.toList.map (·, ()) = b.trie.toList := by
    rw [TrieSet.toList, Trie.keys, List.map_map]
    exact List.map_id _
  rw [joined, trie_insertAll, units]

theorem stored?_eq (s : TrieSet κ) (key : κ) :
    s.stored? key = (s.trie.toList.find? (sameKey ·.1 key)).map (·.1) := by
  rw [TrieSet.stored?, TrieSet.toList, Trie.keys, List.find?_map]
  rfl

theorem size_eq {s : TrieSet κ} (h : Sound s.trie) : s.size = s.toList.length := by
  rw [TrieSet.size, h.size, TrieSet.toList, Trie.keys, List.length_map]

/-- Where no two are one, all are kept. -/
theorem eraseDupsBy_eq_self {α : Type} {same : α → α → Bool} {l : List α}
    (apart : l.Pairwise fun a b => same b a = false) : l.eraseDupsBy same = l := by
  induction apart with
  | nil => rfl
  | cons first _ ih =>
    rw [List.eraseDupsBy_cons, List.filter_eq_self.mpr fun b mem => by simp [first b mem], ih]

namespace Sound

theorem contains_eq_isSome {s : TrieSet κ} (h : Sound s.trie) (key : κ) :
    s.contains key = (s.stored? key).isSome := by
  rw [TrieSet.contains, Trie.contains, h.get?_eq_stored?, Option.isSome_map, stored?_eq,
    Option.isSome_map]

theorem beq_bySameKey {t u : Trie κ Unit} (h : Sound u) :
    @BEq.beq _ (@instBEq κ Unit (bySameKey κ) _ _) t u = (t == u) := by
  change (t.size == u.size && t.toList.all fun e => @Trie.get? κ Unit (bySameKey κ) _ u e.1 ==
    some e.2) = (t.size == u.size && t.toList.all fun e => u.get? e.1 == some e.2)
  simp only [h.get?_bySameKey]

variable [EquivBEq κ] {a b : TrieSet κ}

theorem beq_iff_sameMembers (h : Sound a.trie) (h' : Sound b.trie) :
    (a == b) = true ↔ SameMembers a b := by
  have equal := @Sound.beq_iff_sameContent κ Unit (bySameKey κ) _ _ equivBEq_bySameKey
    lawfulHashable_bySameKey inferInstance a.trie b.trie (bySameKey_iff.mpr h)
    (bySameKey_iff.mpr h')
  rw [h'.beq_bySameKey] at equal
  refine equal.trans ⟨fun same key => ?_, fun same => ?_⟩
  · rw [TrieSet.contains, ← h.contains_bySameKey, TrieSet.contains, ← h'.contains_bySameKey]
    exact @SameContent.keys κ Unit (bySameKey κ) _ _ _ _ same key
  · refine @SameContent.mk κ Unit (bySameKey κ) _ _ _ _ (fun key => ?_) fun _ _ _ _ _ => rfl
    rw [h.contains_bySameKey, h'.contains_bySameKey]
    exact same key

theorem joined (h : Sound a.trie) : Sound (joined a b).trie := by
  rw [trie_joined]
  exact h.insertAll _

/-- The new members come behind those that are there. -/
theorem entries_joined (h : Sound a.trie) (h' : Sound b.trie) :
    (Trie.joined a b).trie.toList.Perm
      (a.trie.toList ++ b.trie.toList.filter fun e => !a.contains e.1) := by
  have whole := h.toList_insertAll (fun e (_ : e ∈ b.trie.toList) _ _ => rfl) fun _ _ _ _ _ => rfl
  have apart := h'.apart.imp fun {e e'} apart => (sameKey_comm e'.1 e.1).trans apart
  rwa [eraseDupsBy_eq_self (apart.filter _), ← trie_joined] at whole

theorem stored?_joined (h : Sound a.trie) (h' : Sound b.trie) (key : κ) :
    (Trie.joined a b).stored? key = (a.stored? key).or (b.stored? key) := by
  have stored := @stored?_eq_of_perm κ Unit (bySameKey κ) equivBEq_bySameKey _ _
    (h.entries_joined h') (h.joined (b := b)).apart key
  change List.find? (sameKey ·.1 key) _ = (Trie.joined a b).trie.toList.find? (sameKey ·.1 key)
    at stored
  rw [stored?_eq, ← stored, List.find?_append, Option.map_or, ← stored?_eq, List.find?_filter]
  cases found : a.stored? key with
  | some k => rfl
  | none =>
    -- the filter leaves out nothing that the search could find
    have absent : a.contains key = false := by rw [h.contains_eq_isSome, found]; rfl
    have kept : ∀ e : κ × Unit, decide (!a.contains e.1 ∧ sameKey e.1 key) = sameKey e.1 key := by
      intro e
      by_cases same : sameKey e.1 key = true
      · have there : a.contains e.1 = a.contains key := h.contains_congr same
        simp [there, absent, same]
      · simp [same]
    simp only [kept, stored?_eq, Option.none_or]

theorem contains_joined (h : Sound a.trie) (h' : Sound b.trie) (key : κ) :
    (Trie.joined a b).contains key = (a.contains key || b.contains key) := by
  rw [h.joined.contains_eq_isSome, h.stored?_joined h', Option.isSome_or, h.contains_eq_isSome,
    h'.contains_eq_isSome]

theorem size_joined (h : Sound a.trie) (h' : Sound b.trie) :
    (Trie.joined a b).size = a.size + (b.toList.filter (!a.contains ·)).length := by
  have entries := (h.entries_joined h').length_eq
  rw [TrieSet.toList, Trie.keys, List.filter_map, List.length_map]
  rw [List.length_append, ← h.size, ← h.joined.size] at entries
  exact entries

theorem beq_joined_comm (h : Sound a.trie) (h' : Sound b.trie) :
    (Trie.joined a b == Trie.joined b a) = true := by
  rw [h.joined.beq_iff_sameMembers h'.joined]
  intro key
  rw [h.contains_joined h', h'.contains_joined h, Bool.or_comm]

/-- Common members are counted in both sets. -/
theorem length_common (h : Sound a.trie) (h' : Sound b.trie) :
    (a.toList.filter b.contains).length = (b.toList.filter a.contains).length := by
  have both : (Trie.joined a b).size = (Trie.joined b a).size :=
    (beq_iff.mp (h.beq_joined_comm h')).1
  have mine := List.length_eq_length_filter_add (l := a.toList) b.contains
  have yours := List.length_eq_length_filter_add (l := b.toList) a.contains
  rw [h.size_joined h', h'.size_joined h, size_eq h, size_eq h'] at both
  omega

end Sound

/-- What unions of sets come to. -/
structure UnionLaws (a b c : TrieSet κ) : Prop where
  contains : ∀ key, (a.union b).contains key = (a.contains key || b.contains key)
  size : (a.union b).size + (a.toList.filter b.contains).length = a.size + b.size
  comm : (a.union b == b.union a) = true
  assoc : ((a.union b).union c == a.union (b.union c)) = true
  self : (a.union a == a) = true
  empty_right : (a.union .empty == a) = true
  empty_left : (TrieSet.empty.union a == a) = true
  /-- What only one set holds is stored as it is there, and what both hold as in the larger one. -/
  stored : ∀ key, (a.union b).stored? key =
    ((a.larger b).stored? key).or ((a.smaller b).stored? key)
  common : ∀ key, a.contains key = true → b.contains key = true →
    ∃ k, (a.larger b).stored? key = some k ∧ (a.union b).stored? key = some k

namespace BuiltSet

variable {a b c : TrieSet κ}

theorem larger (h : BuiltSet a) (h' : BuiltSet b) : BuiltSet (a.larger b) := by
  rw [TrieSet.larger]
  split
  · exact h'
  · exact h

theorem smaller (h : BuiltSet a) (h' : BuiltSet b) : BuiltSet (a.smaller b) := by
  rw [TrieSet.smaller]
  split
  · exact h
  · exact h'

variable [EquivBEq κ]

theorem sound (h : BuiltSet a) : Sound a.trie := h.trie.sound

theorem stored?_union (h : BuiltSet a) (h' : BuiltSet b) (key : κ) :
    (a.union b).stored? key = ((a.larger b).stored? key).or ((a.smaller b).stored? key) := by
  rw [union_eq]
  exact (h.larger h').sound.stored?_joined (h.smaller h').sound key

theorem contains_union (h : BuiltSet a) (h' : BuiltSet b) (key : κ) :
    (a.union b).contains key = (a.contains key || b.contains key) := by
  rw [union_eq]
  refine ((h.larger h').sound.contains_joined (h.smaller h').sound key).trans ?_
  rw [TrieSet.larger, TrieSet.smaller]
  split
  · rw [Bool.or_comm]
  · rfl

theorem size_union (h : BuiltSet a) (h' : BuiltSet b) :
    (a.union b).size + (a.toList.filter b.contains).length = a.size + b.size := by
  have split_a := List.length_eq_length_filter_add (l := a.toList) b.contains
  have split_b := List.length_eq_length_filter_add (l := b.toList) a.contains
  have common := h.sound.length_common h'.sound
  rw [← size_eq h.sound] at split_a
  rw [← size_eq h'.sound] at split_b
  rw [union_eq, ← joined, (h.larger h').sound.size_joined (h.smaller h').sound]
  rw [TrieSet.larger, TrieSet.smaller]
  split <;> omega

theorem beq_of_sameMembers (h : BuiltSet a) (h' : BuiltSet b) (same : SameMembers a b) :
    (a == b) = true := (h.sound.beq_iff_sameMembers h'.sound).mpr same

/-- Sets that operations arrive at have true unions, for every hash function and whichever of two
sets is traversed. Equality is the one that compares contents, so a shortcut for shared roots could
only answer the same. -/
theorem union_laws (ha : BuiltSet a) (hb : BuiltSet b) (hc : BuiltSet c) : UnionLaws a b c where
  contains := ha.contains_union hb
  size := ha.size_union hb
  comm := by
    apply (ha.union hb).beq_of_sameMembers (hb.union ha)
    intro key
    rw [ha.contains_union hb, hb.contains_union ha, Bool.or_comm]
  assoc := by
    apply ((ha.union hb).union hc).beq_of_sameMembers (ha.union (hb.union hc))
    intro key
    rw [(ha.union hb).contains_union hc, ha.contains_union (hb.union hc), ha.contains_union hb,
      hb.contains_union hc, Bool.or_assoc]
  self := by
    apply (ha.union ha).beq_of_sameMembers ha
    intro key
    rw [ha.contains_union ha, Bool.or_self]
  empty_right := by
    apply (ha.union .empty).beq_of_sameMembers ha
    intro key
    exact (ha.contains_union .empty key).trans (Bool.or_false _)
  empty_left := by
    apply (BuiltSet.empty.union ha).beq_of_sameMembers ha
    intro key
    exact (BuiltSet.empty.contains_union ha key).trans (Bool.false_or _)
  stored := ha.stored?_union hb
  common key in_a in_b := by
    have there : (a.larger b).contains key = true := by
      rw [TrieSet.larger]
      split
      · exact in_b
      · exact in_a
    rw [(ha.larger hb).sound.contains_eq_isSome, Option.isSome_iff_exists] at there
    obtain ⟨k, found⟩ := there
    refine ⟨k, found, ?_⟩
    rw [ha.stored?_union hb, found, Option.some_or]

/-- Sets that have a colliding key in two forms: two of one size, where the first one decides on the
form, and a larger one behind a smaller one. -/
theorem union_laws_two_forms :
    let a : TrieSet Key := .ofList [.bucketed 7 1 "a", .bucketed 7 2 "b"]
    let b : TrieSet Key := .ofList [.bucketed 7 1 "again", .int 5]
    let c : TrieSet Key := .ofList [.int 5, .int 6, .bucketed 7 1 "once more"]
    let key : Key := .bucketed 7 1 ""
    (EquivBEq Key ∧ BuiltSet a ∧ BuiltSet b ∧ BuiltSet c) ∧
      (a.union b).stored? key = some (.bucketed 7 1 "a") ∧
      (b.union a).stored? key = some (.bucketed 7 1 "again") ∧
      (a.union c).stored? key = some (.bucketed 7 1 "once more") ∧
      (a.union b).size = 3 ∧ (a.union b == b.union a) = true := by
  intro a b c key
  have ha : BuiltSet a := .ofList _
  have hb : BuiltSet b := .ofList _
  have hc : BuiltSet c := .ofList _
  have ab : UnionLaws a b c := union_laws ha hb hc
  have ba : UnionLaws b a c := union_laws hb ha hc
  have ac : UnionLaws a c b := union_laws ha hc hb
  refine ⟨⟨inferInstance, ha, hb, hc⟩, ?_, ?_, ?_, ?_, ab.comm⟩
  · exact (ab.stored key).trans (by decide +kernel)
  · exact (ba.stored key).trans (by decide +kernel)
  · exact (ac.stored key).trans (by decide +kernel)
  · have common : (a.toList.filter b.contains).length = 1 := by decide +kernel
    have size := ab.size
    rw [common] at size
    exact Nat.add_right_cancel size

end BuiltSet
end Trie
end ModuleSystem
