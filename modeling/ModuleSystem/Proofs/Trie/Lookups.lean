import ModuleSystem.Proofs.Trie.SameKey

namespace ModuleSystem.Trie

variable {κ ν : Type}

namespace PairMap

variable [BEq κ] {m : PairMap κ ν} {key k : κ}

theorem insert_new [BEq ν] {value : ν} (new : m.stored? key = none) :
    m.insert key value = m ++ [(key, value)] := by
  rw [insert, new]

theorem length_insert [BEq ν] {value : ν} :
    (m.insert key value).length = if (m.stored? key).isSome then m.length else m.length + 1 := by
  rw [insert]
  cases m.stored? key with
  | none => simp
  | some stored => by_cases equal : (stored.2 == value) = true <;> simp [equal]

theorem outcome_insert [BEq ν] {value : ν} : m.outcome (.insert key value) =
    ((m.stored? key).map (·.2)).elim .added
      fun old => if old == value then .unchanged else .replaced := by
  rw [outcome]
  cases m.stored? key <;> rfl

variable [EquivBEq κ]

theorem stored?_congr (same : (key == k) = true) : m.stored? key = m.stored? k :=
  congrArg (m.find? ·) (funext fun _ => BEq.congr_right same)

/-- Putting another pair in the place of a stored one leaves the other keys alone. -/
theorem stored?_replace {pair : κ × ν} (same : (pair.1 == key) = true) :
    stored? (m.map fun e => if e.1 == key then pair else e) k =
      (m.stored? k).map fun e => if e.1 == key then pair else e := by
  rw [stored?, stored?, List.find?_map]
  refine congrArg (Option.map _) (congrArg (m.find? ·) (funext fun e => ?_))
  rw [Function.comp]
  split
  · next equal => exact BEq.congr_left (BEq.trans same (BEq.symm equal))
  · rfl

variable [BEq ν] [LawfulBEq ν] {value : ν}

theorem get?_insert :
    (m.insert key value).get? k = if key == k then some value else m.get? k := by
  rw [insert]
  cases found : m.stored? key with
  | none =>
    rw [get?, get?, stored?, stored?, List.find?_append, List.find?_singleton]
    by_cases same : (key == k) = true
    · rw [stored?_congr same, stored?] at found
      simp [found, same]
    · simp [same]
  | some stored =>
    have stored_key : (stored.1 == key) = true :=
      List.find?_some (p := fun e : κ × ν => e.1 == key) found
    by_cases equal : (stored.2 == value) = true
    · simp only [if_pos equal]
      by_cases same : (key == k) = true
      · rw [if_pos same, get?, ← stored?_congr same, found, Option.map_some, eq_of_beq equal]
      · rw [if_neg same]
    · simp only [if_neg equal]
      have replaced : stored? (m.map fun e => if e.1 == key then (key, value) else e) k =
          (m.stored? k).map fun e => if e.1 == key then (key, value) else e :=
        stored?_replace BEq.rfl
      rw [get?, replaced]
      by_cases same : (key == k) = true
      · rw [if_pos same, ← stored?_congr same, found, Option.map_some, if_pos stored_key]
        rfl
      · rw [if_neg same, get?]
        cases other : m.stored? k with
        | none => rfl
        | some e =>
          have e_key : (e.1 == k) = true :=
            List.find?_some (p := fun e : κ × ν => e.1 == k) other
          have apart : ¬(e.1 == key) = true := fun equal =>
            same (BEq.trans (BEq.symm equal) e_key)
          rw [Option.map_some, if_neg apart]

end PairMap

@[simp] theorem toList_empty : (empty : Trie κ ν).toList = [] := by
  rw [toList, empty, Node.toList]

variable [BEq κ] [Hashable κ]

@[simp] theorem get?_empty (key : κ) : (empty : Trie κ ν).get? key = none := rfl

theorem contains_empty (key : κ) : (empty : Trie κ ν).contains key = false := rfl

theorem insert_eq_self_of_outcome [BEq ν] {t : Trie κ ν} {key : κ} {value : ν}
    (unchanged : t.outcome (.insert key value) = .unchanged) : t.insert key value = t := by
  rw [outcome] at unchanged
  rw [Trie.insert]
  cases result : t.root.insert 0 (hash key) key value with
  | unchanged => rfl
  | replaced => simp [result, Inserted.kind] at unchanged
  | added => simp [result, Inserted.kind] at unchanged

theorem remove_eq_self_of_outcome [BEq ν] {t : Trie κ ν} {key : κ}
    (absent : t.outcome (.remove key) = .notFound) : t.remove key = t := by
  rw [outcome] at absent
  rw [Trie.remove]
  cases result : t.root.remove 0 (hash key) key with
  | none => rfl
  | some root => simp [result] at absent

section
variable [EquivBEq κ] {a b : κ}

theorem sameKey_refl (a : κ) : sameKey a a = true := sameKey_iff.mpr ⟨rfl, BEq.rfl⟩

theorem sameKey_comm (a b : κ) : sameKey a b = sameKey b a := by
  rw [sameKey, sameKey, BEq.comm (a := a), BEq.comm (a := hash a)]

theorem sameKey_congr_left (same : sameKey a b = true) (c : κ) : sameKey a c = sameKey b c := by
  obtain ⟨hashes, keys⟩ := sameKey_iff.mp same
  rw [sameKey, sameKey, hashes, BEq.congr_left keys]

theorem sameKey_congr_right (same : sameKey a b = true) (c : κ) : sameKey c a = sameKey c b := by
  rw [sameKey_comm c a, sameKey_comm c b, sameKey_congr_left same]

end

namespace Sound

variable {t : Trie κ ν} {key k : κ} {value : ν}

/-- No two entries have one key. -/
theorem apart (h : Sound t) : t.toList.Pairwise fun a b => sameKey a.1 b.1 = false :=
  @Sound.distinct κ ν (bySameKey κ) _ lawfulHashable_bySameKey t (bySameKey_iff.mpr h)

theorem get?_eq_stored? (h : Sound t) (key : κ) :
    t.get? key = (t.toList.find? fun e => sameKey e.1 key).map (·.2) := by
  have found := @Sound.get?_eq κ ν (bySameKey κ) _ lawfulHashable_bySameKey t
    (bySameKey_iff.mpr h) key
  rwa [h.get?_bySameKey] at found

variable [EquivBEq κ]

/-- What is stored under a key, the key as it is stored included. -/
theorem find?_eq_some_iff (h : Sound t) {e : κ × ν} :
    (t.toList.find? fun e => sameKey e.1 key) = some e ↔
      e ∈ t.toList ∧ sameKey e.1 key = true :=
  @DistinctKeys.find?_eq_some_iff κ ν (bySameKey κ) equivBEq_bySameKey t.toList h.apart key e

theorem get?_eq_some_iff (h : Sound t) :
    t.get? key = some value ↔ ∃ e ∈ t.toList, sameKey e.1 key = true ∧ e.2 = value := by
  rw [h.get?_eq_stored?, Option.map_eq_some_iff]
  simp only [h.find?_eq_some_iff, and_assoc]

theorem get?_congr (h : Sound t) (same : sameKey key k = true) : t.get? key = t.get? k := by
  rw [h.get?_eq_stored?, h.get?_eq_stored?]
  simp only [sameKey_congr_right same]

section
variable [BEq ν]

/-- What an insertion does to the list of entries. -/
theorem represents_insert (h : Sound t) (key : κ) (value : ν) :
    @Represents κ ν (bySameKey κ) _ (t.insert key value)
        (@PairMap.insert κ ν (bySameKey κ) _ t.toList key value) ∧
      t.outcome (.insert key value) =
        @PairMap.outcome κ ν (bySameKey κ) _ t.toList (.insert key value) := by
  have after := @Represents.insert κ ν (bySameKey κ) _ lawfulHashable_bySameKey
    equivBEq_bySameKey _ t t.toList h.represents key value
  rw [h.insert_bySameKey] at after
  refine ⟨after.1, Eq.trans ?_ after.2⟩
  simp only [outcome, h.root_insert_bySameKey]

theorem outcome_insert (h : Sound t) (key : κ) (value : ν) :
    t.outcome (.insert key value) =
      (t.get? key).elim .added fun old => if old == value then .unchanged else .replaced := by
  rw [(h.represents_insert key value).2, h.get?_eq_stored?]
  exact @PairMap.outcome_insert κ ν (bySameKey κ) t.toList key _ value

theorem insert_eq_self (h : Sound t) {old : ν} (found : t.get? key = some old)
    (equal : (old == value) = true) : t.insert key value = t := by
  apply insert_eq_self_of_outcome
  rw [h.outcome_insert, found]
  exact if_pos equal

/-- A new key comes with its value to the entries. -/
theorem toList_insert (h : Sound t) (new : t.get? key = none) :
    (t.insert key value).toList.Perm (t.toList ++ [(key, value)]) := by
  rw [h.get?_eq_stored?, Option.map_eq_none_iff] at new
  have entries := @Represents.entries κ ν (bySameKey κ) _ _ _ (h.represents_insert key value).1
  rwa [@PairMap.insert_new κ ν (bySameKey κ) _ _ _ _ new] at entries

theorem size_insert (h : Sound t) (key : κ) (value : ν) :
    (t.insert key value).size = if t.contains key then t.size else t.size + 1 := by
  have entries := @Represents.entries κ ν (bySameKey κ) _ _ _ (h.represents_insert key value).1
  have length := entries.length_eq.trans (@PairMap.length_insert κ ν (bySameKey κ) _ _ _ _)
  rw [(h.insert key value).size, length, h.size, Trie.contains, h.get?_eq_stored?,
    Option.isSome_map]
  rfl

theorem get?_insert [LawfulBEq ν] (h : Sound t) (key : κ) (value : ν) (k : κ) :
    (t.insert key value).get? k = if sameKey key k then some value else t.get? k := by
  have after := @Represents.agrees κ ν (bySameKey κ) _ lawfulHashable_bySameKey
    equivBEq_bySameKey _ _ _ (h.represents_insert key value).1
  have answer := @Agrees.get κ ν (bySameKey κ) _ _ _ _ after k
  rw [(h.insert key value).get?_bySameKey] at answer
  rw [answer, h.get?_eq_stored?]
  exact @PairMap.get?_insert κ ν (bySameKey κ) t.toList key k equivBEq_bySameKey _ _ value

theorem represents_remove (h : Sound t) (key : κ) :
    @Represents κ ν (bySameKey κ) _ (t.remove key)
        (@PairMap.remove κ ν (bySameKey κ) t.toList key) ∧
      t.outcome (.remove key) = @PairMap.outcome κ ν (bySameKey κ) _ t.toList (.remove key) := by
  have after := @Represents.remove κ ν (bySameKey κ) _ lawfulHashable_bySameKey
    equivBEq_bySameKey _ t t.toList h.represents key
  rw [h.remove_bySameKey] at after
  refine ⟨after.1, Eq.trans ?_ after.2⟩
  simp only [outcome, h.root_remove_bySameKey]

theorem outcome_remove (h : Sound t) (key : κ) :
    t.outcome (.remove key) = if t.contains key then .removed else .notFound := by
  rw [(h.represents_remove key).2, Trie.contains, h.get?_eq_stored?, Option.isSome_map]
  rfl

end

end Sound

end ModuleSystem.Trie
